import Mathlib.Data.List.Basic

/-!
# First writer wins

Maps in which a key keeps the value with which it was first recorded. What is recorded in the order
of a list is found at the first element that has the key.
-/

namespace FirstWriter

variable {κ α β : Type*} [DecidableEq κ]

def lookup (k : κ) (map : List (κ × α)) : Option α := (map.find? fun e => e.1 = k).map Prod.snd

/-- A key that is there already stays as it is. -/
def record (keys : List κ) (a : α) (map : List (κ × α)) : List (κ × α) :=
  keys.foldl (fun map k => if (lookup k map).isSome then map else map ++ [(k, a)]) map

theorem lookup_append_singleton (k l : κ) (a : α) (map : List (κ × α)) :
    lookup k (map ++ [(l, a)]) = (lookup k map).or (if k = l then some a else none) := by
  rw [lookup, List.find?_append, lookup]
  cases map.find? fun e => e.1 = k with
  | some e => rfl
  | none =>
    by_cases same : k = l
    · simp [same]
    · have other : ¬l = k := fun e => same e.symm
      simp [same, other]

theorem lookup_record (k : κ) (keys : List κ) (a : α) (map : List (κ × α)) :
    lookup k (record keys a map) =
      (lookup k map).or (if k ∈ keys then some a else none) := by
  induction keys generalizing map with
  | nil => simp [record]
  | cons l keys ih =>
    rw [record, List.foldl_cons]
    change lookup k (record keys a _) = _
    rw [ih]
    by_cases same : k = l
    · subst same
      cases found : lookup k map with
      | some b => simp [found]
      | none => simp [lookup_append_singleton, found]
    · split
      · simp [same]
      · rw [lookup_append_singleton, if_neg same]
        simp [same]

/-- The value is that of the first element that has the key. -/
theorem lookup_foldl_record (keys : β → List κ) (value : β → α) (k : κ) (l : List β) :
    lookup k (l.foldl (fun map b => record (keys b) (value b) map) []) =
      (l.find? fun b => k ∈ keys b).map value := by
  have all : ∀ (l : List β) (map : List (κ × α)),
      lookup k (l.foldl (fun map b => record (keys b) (value b) map) map) =
        (lookup k map).or ((l.find? fun b => k ∈ keys b).map value) := by
    intro l
    induction l with
    | nil => simp
    | cons b l ih =>
      intro map
      rw [List.foldl_cons, ih, lookup_record, Option.or_assoc]
      by_cases here : k ∈ keys b <;> simp [here]
  exact all l []

/-- In an ordered list the first that satisfies `p` is before all others that do. -/
theorem find?_first {R : β → β → Prop} {p : β → Bool} {l : List β} {b c : β}
    (ordered : l.Pairwise R) (found : l.find? p = some b) (mem : c ∈ l) (holds : p c = true) :
    b = c ∨ R b c := by
  obtain ⟨-, before, after, rfl, none_before⟩ := List.find?_eq_some_iff_append.mp found
  obtain early | late := List.mem_append.mp mem
  · have refused := none_before c early
    simp [holds] at refused
  · obtain rfl | late := List.mem_cons.mp late
    · exact Or.inl rfl
    · have tail := (List.pairwise_append.mp ordered).2.1
      exact Or.inr ((List.pairwise_cons.mp tail).1 c late)

/-- Positions grow along a list. -/
theorem pairwise_zipIdx (l : List β) (n : Nat) :
    (l.zipIdx n).Pairwise fun a b => a.2 < b.2 := by
  induction l generalizing n with
  | nil => exact List.Pairwise.nil
  | cons b l ih =>
    rw [List.zipIdx_cons, List.pairwise_cons]
    refine ⟨fun c mem => ?_, ih (n + 1)⟩
    have := List.le_snd_of_mem_zipIdx mem
    simp only
    omega

end FirstWriter
