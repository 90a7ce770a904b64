import Mathlib.Algebra.BigOperators.Group.List.Basic

/-!
# Tallies

A tally is an insertion-ordered dictionary from keys to sums, filled by adding the
weight of each item to the entry of its key, as a dictionary with a default of zero
is in a loop.
-/

namespace Tally

variable {ι κ M : Type*} [DecidableEq κ] [AddCommMonoid M]

/-- `d[k] += w`, with zero for a missing entry. -/
def add (k : κ) (w : M) : List (κ × M) → List (κ × M)
  | [] => [(k, w)]
  | (k', v) :: rest => if k' = k then (k', v + w) :: rest else (k', v) :: add k w rest

/-- The dictionary after adding every item. -/
def tally (key : ι → κ) (weight : ι → M) (items : List ι) : List (κ × M) :=
  items.foldl (fun d x => add (key x) (weight x) d) []

/-- The entry of a key. -/
def get (d : List (κ × M)) (k : κ) : Option M := (d.find? fun e => e.1 = k).map (·.2)

/-- What the entries with a key in `p` hold together. -/
def held (d : List (κ × M)) (p : κ → Prop) [DecidablePred p] : M :=
  (d.map fun e => if p e.1 then e.2 else 0).sum

section
variable (p : κ → Prop) [DecidablePred p]

omit [DecidableEq κ] in
theorem held_nil : held ([] : List (κ × M)) p = 0 := rfl

omit [DecidableEq κ] in
theorem held_cons (e : κ × M) (d : List (κ × M)) :
    held (e :: d) p = (if p e.1 then e.2 else 0) + held d p := by
  simp [held]

theorem held_add (k : κ) (w : M) (d : List (κ × M)) :
    held (add k w d) p = held d p + if p k then w else 0 := by
  induction d with
  | nil => simp [add, held]
  | cons e rest ih =>
    obtain ⟨x, v⟩ := e
    unfold add
    by_cases hx : x = k
    · subst hx
      by_cases hp : p x
      · simp [held_cons, hp, add_assoc, add_comm w]
      · simp [held_cons, hp]
    · simp only [if_neg hx, held_cons, ih, add_assoc]

theorem held_foldl (key : ι → κ) (weight : ι → M) (items : List ι) (d : List (κ × M)) :
    held (items.foldl (fun d x => add (key x) (weight x) d) d) p =
      held d p + (items.map fun x => if p (key x) then weight x else 0).sum := by
  induction items generalizing d with
  | nil => simp
  | cons x rest ih => rw [List.foldl_cons, ih, held_add, List.map_cons, List.sum_cons, add_assoc]

/-- The entries with some keys hold the sum of the weights of the items with these keys. -/
theorem held_tally (key : ι → κ) (weight : ι → M) (items : List ι) :
    held (tally key weight items) p = (items.map fun x => if p (key x) then weight x else 0).sum := by
  rw [tally, held_foldl, held_nil, zero_add]

end

/-! ## Entries -/

theorem get_add (k k' : κ) (w : M) (d : List (κ × M)) :
    get (add k w d) k' = if k = k' then some ((get d k').getD 0 + w) else get d k' := by
  induction d with
  | nil =>
    by_cases h : k = k'
    · simp [add, get, h]
    · simp [add, get, h]
  | cons e rest ih =>
    obtain ⟨x, v⟩ := e
    unfold add
    by_cases hx : x = k
    · subst hx
      by_cases h : x = k' <;> simp [get, h]
    · by_cases h : x = k'
      · subst h
        simp [get, hx, Ne.symm hx]
      · rw [if_neg hx]
        simp only [get, List.find?_cons, h, decide_false] at ih ⊢
        exact ih

theorem getD_foldl (key : ι → κ) (weight : ι → M) (items : List ι) (d : List (κ × M)) (k : κ) :
    (get (items.foldl (fun d x => add (key x) (weight x) d) d) k).getD 0 =
      (get d k).getD 0 + (items.map fun x => if key x = k then weight x else 0).sum := by
  induction items generalizing d with
  | nil => simp
  | cons x rest ih =>
    rw [List.foldl_cons, ih, get_add, List.map_cons, List.sum_cons, ← add_assoc]
    by_cases h : key x = k <;> simp [h]

/-- The entry of a key is the sum of the weights of its items. -/
theorem getD_tally (key : ι → κ) (weight : ι → M) (items : List ι) (k : κ) :
    (get (tally key weight items) k).getD 0 =
      (items.map fun x => if key x = k then weight x else 0).sum := by
  rw [tally, getD_foldl]
  simp [get]

theorem getD_tally_filter (p : ι → Bool) (key : ι → κ) (weight : ι → M) (items : List ι) (k : κ) :
    (get (tally key weight (items.filter p)) k).getD 0 =
      (items.map fun x => if p x ∧ key x = k then weight x else 0).sum := by
  rw [getD_tally]
  induction items with
  | nil => rfl
  | cons x rest ih =>
    cases hp : p x with
    | true => simp [hp, ih]
    | false => simp [hp, ih]

theorem forall_add {P : M → Prop} (hadd : ∀ v w, P v → P w → P (v + w)) {k : κ} {w : M}
    {d : List (κ × M)} (hw : P w) (h : ∀ e ∈ d, P e.2) : ∀ e ∈ add k w d, P e.2 := by
  induction d with
  | nil =>
    intro e he
    rw [List.mem_singleton.mp he]
    exact hw
  | cons x rest ih =>
    obtain ⟨hx, hrest⟩ := List.forall_mem_cons.mp h
    unfold add
    split
    · exact List.forall_mem_cons.mpr ⟨hadd _ _ hx hw, hrest⟩
    · exact List.forall_mem_cons.mpr ⟨hx, ih hrest⟩

/-- What sums keep and every weight has, every entry of a tally has. -/
theorem forall_tally {P : M → Prop} (hadd : ∀ v w, P v → P w → P (v + w)) {key : ι → κ}
    {weight : ι → M} {items : List ι} (h : ∀ x ∈ items, P (weight x)) :
    ∀ e ∈ tally key weight items, P e.2 := by
  have start : ∀ d : List (κ × M), (∀ e ∈ d, P e.2) →
      ∀ e ∈ items.foldl (fun d x => add (key x) (weight x) d) d, P e.2 := by
    induction items with
    | nil => exact fun d hd => hd
    | cons x rest ih =>
      obtain ⟨hx, hrest⟩ := List.forall_mem_cons.mp h
      exact fun d hd => ih hrest _ (forall_add hadd hx hd)
  exact start [] (List.forall_mem_nil _)

end Tally
