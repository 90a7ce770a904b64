import Mathlib.Data.List.Basic
import Mathlib.Data.List.Nodup
import Mathlib.Data.List.Sort

/-!
# Edits by position

A list whose entries are edited or removed one after another, each by its position in the list
as it then is. Edits that come in descending order of position leave the entries below them where
they were, so that the whole batch can be read off position by position: first what happens
behind an entry, then the edits of the entry itself.
-/

namespace Positions

variable {α : Type*}

/-- `none` removes an entry, `some f` changes it. -/
abbrev Edit (α : Type*) := Option (α → α)

/-- The edit of the entry at a position; there may be none. -/
def editAt : Nat → Edit α → List α → List α
  | _, _, [] => []
  | 0, none, _ :: l => l
  | 0, some f, a :: l => f a :: l
  | i + 1, e, a :: l => a :: editAt i e l

attribute [grind] editAt

theorem editAt_none (i : Nat) (l : List α) : editAt i none l = l.eraseIdx i := by
  induction l generalizing i with
  | nil => simp [editAt]
  | cons a l ih =>
    cases i with
    | zero => rfl
    | succ i => simp [editAt, ih]

theorem editAt_some (i : Nat) (f : α → α) (l : List α) : editAt i (some f) l = l.modify i f := by
  induction l generalizing i with
  | nil => simp [editAt]
  | cons a l ih =>
    cases i with
    | zero => rfl
    | succ i => simp [editAt, ih]

/-- Edits one after another, each with its position. -/
def editAll (edits : List (Nat × Edit α)) (l : List α) : List α :=
  edits.foldl (fun l e => editAt e.1 e.2 l) l

@[simp] theorem editAll_cons (e : Nat × Edit α) (edits : List (Nat × Edit α)) (l : List α) :
    editAll (e :: edits) l = editAll edits (editAt e.1 e.2 l) := rfl

theorem editAll_append (first second : List (Nat × Edit α)) (l : List α) :
    editAll (first ++ second) l = editAll second (editAll first l) := List.foldl_append

theorem editAll_nothing (edits : List (Nat × Edit α)) : editAll edits ([] : List α) = [] := by
  induction edits with
  | nil => rfl
  | cons e edits ih => simpa [editAt] using ih

/-- The edits of one position, in their order. -/
def editsAt (edits : List (Nat × Edit α)) (i : Nat) : List (Edit α) :=
  (edits.filter fun e => e.1 = i).map Prod.snd

/-- Edits of the first entry, or of what has taken its place. -/
def editHead (edits : List (Edit α)) (l : List α) : List α :=
  edits.foldl (fun l e => editAt 0 e l) l

/-- What comes after an entry is settled before the entry. -/
def settle (group : Nat → List (Edit α)) : List α → List α
  | [] => []
  | a :: l => editHead (group 0) (a :: settle (fun i => group (i + 1)) l)

attribute [grind] settle

theorem settle_congr {group group' : Nat → List (Edit α)} (same : ∀ i, group i = group' i)
    (l : List α) : settle group l = settle group' l := by
  rw [funext same]

theorem editAll_zero {edits : List (Nat × Edit α)} (zero : ∀ e ∈ edits, e.1 = 0) (l : List α) :
    editAll edits l = editHead (edits.map Prod.snd) l := by
  induction edits generalizing l with
  | nil => rfl
  | cons e edits ih =>
    have here : e.1 = 0 := zero e (List.mem_cons_self ..)
    rw [editAll_cons, here, ih fun e he => zero e (List.mem_cons_of_mem _ he)]
    rfl

/-- Edits past the first entry are edits of the rest. -/
theorem editAll_succ {edits : List (Nat × Edit α)} (positive : ∀ e ∈ edits, 0 < e.1) (a : α)
    (l : List α) :
    editAll edits (a :: l) = a :: editAll (edits.map fun e => (e.1 - 1, e.2)) l := by
  induction edits generalizing l with
  | nil => rfl
  | cons e edits ih =>
    obtain ⟨i, e⟩ := e
    have here : 0 < i := positive (i, e) (List.mem_cons_self ..)
    obtain ⟨j, rfl⟩ : ∃ j, i = j + 1 := ⟨i - 1, by omega⟩
    rw [editAll_cons, editAt, ih fun e he => positive e (List.mem_cons_of_mem _ he)]
    simp

/-- In descending order the edits of the first entry come last. -/
theorem split_descending {edits : List (Nat × Edit α)}
    (descending : edits.Pairwise fun e e' => e'.1 ≤ e.1) :
    edits = edits.filter (fun e => 0 < e.1) ++ edits.filter (fun e => e.1 = 0) := by
  induction edits with
  | nil => rfl
  | cons e edits ih =>
    obtain ⟨below, descending⟩ := List.pairwise_cons.mp descending
    by_cases here : e.1 = 0
    · have rest : ∀ e' ∈ edits, e'.1 = 0 := fun e' he' => by
        have := below e' he'
        omega
      have none_positive : edits.filter (fun e => 0 < e.1) = [] := by
        rw [List.filter_eq_nil_iff]
        intro e' he'
        have := rest e' he'
        simp [this]
      have all : edits.filter (fun e => e.1 = 0) = edits := by
        rw [List.filter_eq_self]
        intro e' he'
        simp [rest e' he']
      simp [here, none_positive, all]
    · have positive : 0 < e.1 := by omega
      have step := ih descending
      simp only [List.filter_cons, positive, decide_true, here, decide_false, if_true,
        Bool.false_eq_true, if_false, List.cons_append]
      exact congrArg (e :: ·) step

/-- **Descending edits settle the list from its end.** -/
theorem editAll_descending {edits : List (Nat × Edit α)}
    (descending : edits.Pairwise fun e e' => e'.1 ≤ e.1) (l : List α) :
    editAll edits l = settle (editsAt edits) l := by
  induction l generalizing edits with
  | nil => rw [editAll_nothing, settle]
  | cons a l ih =>
    have high : ∀ e ∈ edits.filter (fun e => 0 < e.1), 0 < e.1 := fun e he => by
      simpa using (List.mem_filter.mp he).2
    have zero : ∀ e ∈ edits.filter (fun e => e.1 = 0), e.1 = 0 := fun e he => by
      simpa using (List.mem_filter.mp he).2
    have lower : ((edits.filter fun e => 0 < e.1).map fun e => (e.1 - 1, e.2)).Pairwise
        fun e e' => e'.1 ≤ e.1 := by
      rw [List.pairwise_map]
      apply (descending.sublist List.filter_sublist).imp
      intro e e' le
      show e'.1 - 1 ≤ e.1 - 1
      omega
    have groups : ∀ i, editsAt ((edits.filter fun e => 0 < e.1).map fun e => (e.1 - 1, e.2)) i =
        editsAt edits (i + 1) := by
      intro i
      simp only [editsAt, List.filter_map, List.map_map, List.filter_filter]
      congr 1
      apply List.filter_congr
      intro e _
      rw [Bool.eq_iff_iff]
      simp only [Function.comp, Bool.and_eq_true, decide_eq_true_eq]
      omega
    calc editAll edits (a :: l)
        = editAll (edits.filter (fun e => 0 < e.1) ++ edits.filter (fun e => e.1 = 0)) (a :: l) := by
          rw [← split_descending descending]
      _ = settle (editsAt edits) (a :: l) := by
          rw [editAll_append, editAll_succ high, ih lower, editAll_zero zero,
            settle_congr groups, settle]
          rfl

/-- Sorting by descending position keeps the order of the entries that share a position. -/
theorem filter_insertionSort {β : Type*} (position : β → Nat) (l : List β) (i : Nat) :
    (l.insertionSort fun a b => position b ≤ position a).filter (fun b => position b = i) =
      l.filter fun b => position b = i := by
  have total : Std.Total fun a b : β => position b ≤ position a := ⟨fun a b => by omega⟩
  have trans : IsTrans β fun a b => position b ≤ position a := ⟨fun a b c => by omega⟩
  have at_i : ∀ b ∈ l.filter fun b => position b = i, position b = i := fun b hb => by
    simpa using (List.mem_filter.mp hb).2
  have sorted : (l.filter fun b => position b = i).Pairwise fun a b => position b ≤ position a := by
    apply List.pairwise_of_forall_mem_list
    intro a ha b hb
    rw [at_i a ha, at_i b hb]
  have sub := (List.sublist_insertionSort sorted List.filter_sublist).filter fun b => position b = i
  rw [List.filter_filter] at sub
  simp only [Bool.and_self] at sub
  apply Eq.symm
  apply sub.eq_of_length
  exact ((List.perm_insertionSort _ l).filter _).length_eq.symm

/-! ## All positions at once -/

/-- What becomes of an entry for which there may be an edit. -/
def effect : Option (Edit α) → α → Option α
  | none, a => some a
  | some none, _ => none
  | some (some f), a => some (f a)

/-- Every entry gets the edit for its position in the list before all edits. -/
def patch (edit : Nat → Option (Edit α)) (l : List α) : List α :=
  l.zipIdx.filterMap fun p => effect (edit p.2) p.1

@[simp] theorem patch_nil (edit : Nat → Option (Edit α)) : patch edit [] = [] := rfl

theorem patch_cons (edit : Nat → Option (Edit α)) (a : α) (l : List α) :
    patch edit (a :: l) = (effect (edit 0) a).toList ++ patch (fun i => edit (i + 1)) l := by
  have rest : l.zipIdx 1 = l.zipIdx.map fun p => (p.1, p.2 + 1) := List.zipIdx_succ
  rw [patch, List.zipIdx_cons, rest, List.filterMap_cons, List.filterMap_map]
  cases effect (edit 0) a <;> rfl

theorem patch_congr {edit edit' : Nat → Option (Edit α)} (same : ∀ i, edit i = edit' i)
    (l : List α) : patch edit l = patch edit' l := by
  rw [funext same]

theorem patch_eq_nil_iff {edit : Nat → Option (Edit α)} {l : List α} :
    patch edit l = [] ↔ ∀ i < l.length, edit i = some none := by
  induction l generalizing edit with
  | nil => simp
  | cons a l ih =>
    rw [patch_cons, List.append_eq_nil_iff, ih]
    constructor
    · rintro ⟨first, rest⟩ i hi
      cases i with
      | zero =>
        match h : edit 0, first with
        | some none, _ => rfl
      | succ i => exact rest i (by simpa using hi)
    · intro all
      refine ⟨?_, fun i hi => all (i + 1) (by simpa using hi)⟩
      rw [all 0 (by simp)]
      rfl

/-- Where no position has two edits, settling is patching. -/
theorem settle_single {group : Nat → List (Edit α)} (single : ∀ i, (group i).length ≤ 1)
    (l : List α) : settle group l = patch (fun i => (group i).getLast?) l := by
  induction l generalizing group with
  | nil => rfl
  | cons a l ih =>
    rw [settle, patch_cons, ih fun i => single (i + 1)]
    match h : group 0 with
    | [] => rfl
    | [none] => rfl
    | [some f] => rfl
    | _ :: _ :: _ =>
      have := single 0
      rw [h] at this
      simp at this

/-! ## Several edits of one position -/

/-- The changes among the edits, one after another. -/
def changes (edits : List (Edit α)) (a : α) : α :=
  edits.foldl (fun a e => match e with | some f => f a | none => a) a

def removals (edits : List (Edit α)) : Nat := edits.countP fun e => e.isNone

theorem editHead_changes {edits : List (Edit α)} (kept : removals edits = 0) (a : α)
    (l : List α) : editHead edits (a :: l) = changes edits a :: l := by
  induction edits generalizing a with
  | nil => rfl
  | cons e edits ih =>
    cases e with
    | none => simp [removals] at kept
    | some f =>
      have kept' : removals edits = 0 := by simpa [removals] using kept
      exact ih kept' (f a)

/-- Where nothing is removed, every entry gets the edits of its position. -/
theorem settle_changes {group : Nat → List (Edit α)} (kept : ∀ i, removals (group i) = 0)
    (l : List α) : settle group l = l.mapIdx fun i a => changes (group i) a := by
  induction l generalizing group with
  | nil => rfl
  | cons a l ih =>
    have rest := ih fun i => kept (i + 1)
    rw [settle, rest, editHead_changes (kept 0), List.mapIdx_cons]

theorem length_editHead (edits : List (Edit α)) (l : List α) :
    (editHead edits l).length = l.length - removals edits := by
  induction edits generalizing l with
  | nil => rfl
  | cons e edits ih =>
    have step : (editHead (e :: edits) l).length = (editAt 0 e l).length - removals edits := ih _
    rw [step]
    cases e with
    | none =>
      cases l with
      | nil => simp [editAt]
      | cons a l =>
        simp only [editAt, removals, Option.isNone_none, List.countP_cons_of_pos, List.length_cons]
        omega
    | some f =>
      have same : removals (some f :: edits) = removals edits := by simp [removals]
      rw [same]
      cases l <;> rfl

theorem editHead_append (first second : List (Edit α)) (l : List α) :
    editHead (first ++ second) l = editHead second (editHead first l) := List.foldl_append

/-- One removal, after the changes, takes the entry away. -/
theorem editHead_removed {edits : List (Edit α)} (last : edits.getLast? = some none)
    (once : removals edits = 1) (a : α) (l : List α) : editHead edits (a :: l) = l := by
  obtain ⟨front, rfl⟩ := List.getLast?_eq_some_iff.mp last
  have kept : removals front = 0 := by
    simp only [removals, List.countP_append] at once
    have : List.countP (fun e : Edit α => e.isNone) [none] = 1 := rfl
    rw [removals]
    omega
  rw [editHead_append, editHead_changes kept]
  rfl

/-- The last edit of the entry at the front is as good as all of them. -/
def HeadLastWins (edits : List (Edit α)) (a : α) (restGone : Prop) : Prop :=
  match edits.getLast? with
  | none => True
  | some (some f) => removals edits = 0 ∧ changes edits a = f a
  | some none => removals edits = 1 ∨ restGone

/-- For every entry: its last edit changes it, no edit removes it and the last makes of it what all
of them make; or its last edit removes it, and no other does unless all entries behind it go. -/
def LastWins (group : Nat → List (Edit α)) (l : List α) : Prop :=
  ∀ i a, l[i]? = some a →
    HeadLastWins (group i) a (∀ j, i < j → j < l.length → (group j).getLast? = some none)

theorem HeadLastWins.congr {edits : List (Edit α)} {a : α} {p q : Prop} (same : p ↔ q) :
    HeadLastWins edits a p ↔ HeadLastWins edits a q := by
  rw [propext same]

theorem lastWins_cons {group : Nat → List (Edit α)} {a : α} {l : List α} :
    LastWins group (a :: l) ↔
      HeadLastWins (group 0) a (∀ j < l.length, (group (j + 1)).getLast? = some none) ∧
        LastWins (fun i => group (i + 1)) l := by
  have behind : ∀ i, (∀ j, i + 1 < j → j < (a :: l).length → (group j).getLast? = some none) ↔
      ∀ j, i < j → j < l.length → (group (j + 1)).getLast? = some none := by
    intro i
    constructor
    · intro all j lower upper
      exact all (j + 1) (by omega) (by simpa using upper)
    · intro all j lower upper
      obtain ⟨k, rfl⟩ : ∃ k, j = k + 1 := ⟨j - 1, by omega⟩
      exact all k (by omega) (by simpa using upper)
  have first : (∀ j, 0 < j → j < (a :: l).length → (group j).getLast? = some none) ↔
      ∀ j < l.length, (group (j + 1)).getLast? = some none := by
    constructor
    · intro all j upper
      exact all (j + 1) (by omega) (by simpa using upper)
    · intro all j lower upper
      obtain ⟨k, rfl⟩ : ∃ k, j = k + 1 := ⟨j - 1, by omega⟩
      exact all k (by simpa using upper)
  constructor
  · intro all
    refine ⟨(HeadLastWins.congr first).mp (all 0 a rfl), fun i b hb => ?_⟩
    exact (HeadLastWins.congr (behind i)).mp (all (i + 1) b hb)
  · rintro ⟨head, rest⟩ i b hb
    cases i with
    | zero =>
      cases hb
      exact (HeadLastWins.congr first).mpr head
    | succ i => exact (HeadLastWins.congr (behind i)).mpr (rest i b hb)

theorem getLast?_removal {edits : List (Edit α)} (last : edits.getLast? = some none) :
    0 < removals edits := by
  rw [removals, List.countP_pos_iff]
  exact ⟨none, List.mem_of_getLast? last, rfl⟩

/-- Settling never leaves more entries than the last edits would. -/
theorem length_settle_le (group : Nat → List (Edit α)) (l : List α) :
    (settle group l).length ≤ (patch (fun i => (group i).getLast?) l).length := by
  induction l generalizing group with
  | nil => exact le_refl _
  | cons a l ih =>
    have rest := ih fun i => group (i + 1)
    rw [settle, length_editHead, patch_cons, List.length_append, List.length_cons]
    match last : (group 0).getLast? with
    | none =>
      simp only [effect, Option.toList_some, List.length_singleton]
      omega
    | some (some f) =>
      simp only [effect, Option.toList_some, List.length_singleton]
      omega
    | some none =>
      have some_removal := getLast?_removal last
      simp only [effect, Option.toList_none, List.length_nil]
      omega

/-- **Descending edits make of the list what the last edit of each position makes of it, just when
the last edit wins at every position.** -/
theorem settle_eq_patch_iff {group : Nat → List (Edit α)} {l : List α} :
    settle group l = patch (fun i => (group i).getLast?) l ↔ LastWins group l := by
  induction l generalizing group with
  | nil =>
    refine iff_of_true rfl ?_
    intro i a ha
    cases ha
  | cons a l ih =>
    rw [lastWins_cons, ← ih, settle, patch_cons, HeadLastWins]
    have shorter : (settle (fun i => group (i + 1)) l).length ≤
        (patch (fun i => (group (i + 1)).getLast?) l).length := length_settle_le _ l
    have length := length_editHead (group 0) (a :: settle (fun i => group (i + 1)) l)
    rw [List.length_cons] at length
    match last : (group 0).getLast? with
    | none =>
      have none_here : group 0 = [] := List.getLast?_eq_none_iff.mp last
      rw [none_here]
      simp [editHead, effect]
    | some (some f) =>
      constructor
      · intro same
        have lengths := congrArg List.length same
        simp only [effect, Option.toList_some, List.singleton_append, List.length_cons] at lengths
        have kept : removals (group 0) = 0 := by omega
        rw [editHead_changes kept] at same
        obtain ⟨here, behind⟩ := List.cons.inj same
        exact ⟨⟨kept, here⟩, behind⟩
      · rintro ⟨⟨kept, here⟩, behind⟩
        rw [editHead_changes kept, here, behind]
        rfl
    | some none =>
      have gone : (effect (some (none : Edit α)) a).toList = [] := rfl
      have some_removal := getLast?_removal last
      rw [gone, List.nil_append, ← patch_eq_nil_iff]
      constructor
      · intro same
        have lengths := congrArg List.length same
        by_cases once : removals (group 0) = 1
        · rw [editHead_removed last once] at same
          exact ⟨.inl once, same⟩
        · have none_left : (settle (fun i => group (i + 1)) l).length = 0 ∧
              (patch (fun i => (group (i + 1)).getLast?) l).length = 0 := by
            rw [length] at lengths
            omega
          have empty := List.length_eq_zero_iff.mp none_left.1
          have empty' := List.length_eq_zero_iff.mp none_left.2
          exact ⟨.inr empty', empty.trans empty'.symm⟩
      · rintro ⟨once | empty, behind⟩
        · rw [editHead_removed last once, behind]
        · rw [behind, empty]
          apply List.length_eq_zero_iff.mp
          rw [length_editHead, List.length_cons, List.length_nil]
          omega

/-! ## Removals -/

/-- Removing each entry as often as its position says takes no other entry just when an entry that
is removed more than once has none behind it that stays. -/
theorem settle_removals_iff {times : Nat → Nat} {l : List α} :
    settle (fun i => List.replicate (times i) none) l =
        patch (fun i => if times i = 0 then none else some none) l ↔
      ∀ i < l.length, 1 < times i → ∀ j, i < j → j < l.length → 0 < times j := by
  have last : ∀ i, (List.replicate (times i) (none : Edit α)).getLast? =
      if times i = 0 then none else some none := fun i => List.getLast?_replicate
  have gone : ∀ i, (if times i = 0 then none else some (none : Edit α)) = some none ↔
      0 < times i := by
    intro i
    by_cases h : times i = 0
    · simp [h]
    · simp only [h, if_false, true_iff]
      omega
  have wins : ∀ i a p, HeadLastWins (List.replicate (times i) (none : Edit α)) a p ↔
      (1 < times i → p) := by
    intro i a p
    have count : removals (List.replicate (times i) (none : Edit α)) = times i := by
      simp [removals, List.countP_replicate]
    rw [HeadLastWins, last]
    by_cases h : times i = 0
    · simp [h]
    · simp only [h, if_false, count]
      constructor
      · rintro (once | gone) more
        · omega
        · exact gone
      · intro all
        by_cases once : times i = 1
        · exact .inl once
        · exact .inr (all (by omega))
  simp only [← last, settle_eq_patch_iff]
  simp only [LastWins, wins, last, gone]
  constructor
  · intro all i hi more
    exact all i l[i] (List.getElem?_eq_getElem hi) more
  · intro all i a ha more
    obtain ⟨hi, -⟩ := List.getElem?_eq_some_iff.mp ha
    exact all i hi more

/-- An edit that leaves every entry that it does not remove. -/
def Removes (e : Edit α) : Prop := e = none ∨ e = some id

theorem editAt_sublist {i : Nat} {e : Edit α} (removes : Removes e) (l : List α) :
    (editAt i e l).Sublist l := by
  obtain rfl | rfl := removes
  · rw [editAt_none]
    exact List.eraseIdx_sublist ..
  · rw [editAt_some, List.modify_id]

theorem editHead_sublist {edits : List (Edit α)} (removes : ∀ e ∈ edits, Removes e)
    (l : List α) : (editHead edits l).Sublist l := by
  induction edits generalizing l with
  | nil => exact List.Sublist.refl l
  | cons e edits ih =>
    have first : (editAt 0 e l).Sublist l := editAt_sublist (removes e (List.mem_cons_self ..)) l
    exact (ih (fun e he => removes e (List.mem_cons_of_mem _ he)) _).trans first

theorem settle_sublist {group : Nat → List (Edit α)} (removes : ∀ i, ∀ e ∈ group i, Removes e)
    (l : List α) : (settle group l).Sublist l := by
  induction l generalizing group with
  | nil => exact List.Sublist.refl _
  | cons a l ih =>
    have rest := ih fun i => removes (i + 1)
    exact (editHead_sublist (removes 0) _).trans (rest.cons_cons a)

/-- Edits that leave their entry may be dropped. -/
theorem editHead_removes {edits : List (Edit α)} (removes : ∀ e ∈ edits, Removes e) (l : List α) :
    editHead edits l = editHead (List.replicate (removals edits) none) l := by
  induction edits generalizing l with
  | nil => rfl
  | cons e edits ih =>
    have step : editHead (e :: edits) l = editHead edits (editAt 0 e l) := rfl
    rw [step, ih fun e he => removes e (List.mem_cons_of_mem _ he)]
    obtain rfl | rfl := removes e (List.mem_cons_self ..)
    · have count : removals (none :: edits) = removals edits + 1 := by simp [removals]
      rw [count, List.replicate_succ]
      rfl
    · have count : removals (some id :: edits) = removals edits := by simp [removals]
      rw [count, editAt_some, List.modify_id]

theorem settle_removes {group : Nat → List (Edit α)} (removes : ∀ i, ∀ e ∈ group i, Removes e)
    (l : List α) :
    settle group l = settle (fun i => List.replicate (removals (group i)) none) l := by
  induction l generalizing group with
  | nil => rfl
  | cons a l ih =>
    rw [settle, settle, editHead_removes (removes 0), ih fun i => removes (i + 1)]

/-- In a list of positions the entries that stay are read off. -/
theorem patch_range (gone : Nat → Prop) [DecidablePred gone] (n : Nat) :
    patch (fun i => if gone i then some none else none) (List.range n) =
      (List.range n).filter fun i => ¬gone i := by
  have zip : (List.range n).zipIdx = (List.range n).map fun i => (i, i) := by
    apply List.ext_getElem <;> simp
  rw [patch, zip, List.filterMap_map, ← List.filterMap_eq_filter]
  congr 1
  funext i
  by_cases h : gone i <;> simp [effect, Option.guard, h]

/-! ## Edits seen through a map -/

section
variable {β γ : Type*}

/-- Two edits do the same as far as a map tells. -/
def Agree (g : α → β) : Edit α → Edit β → Prop
  | none, none => True
  | some f, some f' => ∀ a, g (f a) = f' (g a)
  | _, _ => False

theorem map_editAt {g : α → β} {e : Edit α} {e' : Edit β} (agree : Agree g e e') (i : Nat)
    (l : List α) : (editAt i e l).map g = editAt i e' (l.map g) := by
  induction l generalizing i with
  | nil => simp [editAt]
  | cons a l ih =>
    cases i with
    | zero =>
      match e, e', agree with
      | none, none, _ => rfl
      | some f, some f', agree =>
        have here : g (f a) = f' (g a) := agree a
        simp only [editAt, List.map_cons, here]
    | succ i => simp only [editAt, List.map_cons, ih]

theorem map_editAll {g : α → β} {position : γ → Nat} {e : γ → Edit α} {e' : γ → Edit β}
    (agree : ∀ c, Agree g (e c) (e' c)) (cs : List γ) (l : List α) :
    (editAll (cs.map fun c => (position c, e c)) l).map g =
      editAll (cs.map fun c => (position c, e' c)) (l.map g) := by
  induction cs generalizing l with
  | nil => rfl
  | cons c cs ih => rw [List.map_cons, editAll_cons, ih, map_editAt (agree c)]; rfl

end

/-! ## What stays -/

/-- An entry that stays has as many entries before it as stay before it. -/
theorem getElem?_filter_eq_some_iff {stays : α → Bool} {l : List α} {i : Nat} {a : α} :
    (l.filter stays)[i]? = some a ↔
      ∃ k, l[k]? = some a ∧ stays a = true ∧ (l.take k).countP stays = i := by
  induction l generalizing i with
  | nil => simp
  | cons b l ih =>
    have split : (∃ k, (b :: l)[k]? = some a ∧ stays a = true ∧
        ((b :: l).take k).countP stays = i) ↔
        (b = a ∧ stays a = true ∧ 0 = i) ∨
          ∃ k, l[k]? = some a ∧ stays a = true ∧
            (l.take k).countP stays + (if stays b then 1 else 0) = i := by
      constructor
      · rintro ⟨k, here, stay, count⟩
        cases k with
        | zero => exact .inl ⟨Option.some.inj here, stay, count⟩
        | succ k =>
          rw [List.take_succ_cons, List.countP_cons] at count
          exact .inr ⟨k, here, stay, count⟩
      · rintro (⟨rfl, stay, rfl⟩ | ⟨k, here, stay, count⟩)
        · exact ⟨0, rfl, stay, rfl⟩
        · refine ⟨k + 1, here, stay, ?_⟩
          rw [List.take_succ_cons, List.countP_cons]
          exact count
    rw [split]
    cases stay : stays b with
    | false =>
      rw [List.filter_cons_of_neg (by simp [stay]), ih]
      constructor
      · rintro ⟨k, here, stay', count⟩
        exact .inr ⟨k, here, stay', by simpa using count⟩
      · rintro (⟨rfl, stay', -⟩ | ⟨k, here, stay', count⟩)
        · rw [stay] at stay'
          cases stay'
        · exact ⟨k, here, stay', by simpa using count⟩
    | true =>
      rw [List.filter_cons_of_pos stay]
      cases i with
      | zero =>
        constructor
        · intro here
          cases here
          exact .inl ⟨rfl, stay, rfl⟩
        · rintro (⟨rfl, -, -⟩ | ⟨k, -, -, count⟩)
          · rfl
          · simp at count
      | succ i =>
        rw [List.getElem?_cons_succ, ih]
        constructor
        · rintro ⟨k, here, stay', count⟩
          exact .inr ⟨k, here, stay', by simpa using count⟩
        · rintro (⟨-, -, zero⟩ | ⟨k, here, stay', count⟩)
          · cases zero
          · exact ⟨k, here, stay', by simpa using count⟩

/-- Where the keys are distinct, the key of an entry stays just when the entry does. -/
theorem key_mem_filter_iff {key : α → β} {stays : α → Bool} {l : List α}
    (distinct : (l.map key).Nodup) {a : α} (mem : a ∈ l) :
    key a ∈ (l.filter stays).map key ↔ stays a = true := by
  constructor
  · intro kept
    obtain ⟨a', kept', same⟩ := List.mem_map.mp kept
    obtain ⟨mem', stay⟩ := List.mem_filter.mp kept'
    rw [← List.inj_on_of_nodup_map distinct mem' mem same]
    exact stay
  · intro stay
    exact List.mem_map_of_mem (List.mem_filter.mpr ⟨mem, stay⟩)

/-- Entries that stay, some more, and new ones are all just when each is there once. -/
theorem filter_append_perm_iff {key : α → β} {stays : α → Bool} {l : List α}
    {rest new all : List β} (distinct : (l.map key ++ rest).Nodup) (unique : all.Nodup) :
    ((l.filter stays).map key ++ rest ++ new).Perm all ↔
      new.Nodup ∧ (∀ b ∈ new, b ∈ all) ∧
        (∀ a ∈ l, stays a = true ↔ key a ∈ all ∧ key a ∉ new) ∧
        (∀ b ∈ rest, b ∈ all ∧ b ∉ new) ∧ ∀ b ∈ all, b ∉ l.map key ++ rest → b ∈ new := by
  obtain ⟨keys, rest_nodup, apart⟩ := List.nodup_append.mp distinct
  have kept : ((l.filter stays).map key).Sublist (l.map key) := List.filter_sublist.map key
  constructor
  · intro perm
    obtain ⟨-, new_nodup, fresh⟩ := List.nodup_append.mp (perm.nodup_iff.mpr unique)
    have mem_all : ∀ b, b ∈ all ↔ (b ∈ (l.filter stays).map key ∨ b ∈ rest) ∨ b ∈ new := by
      intro b
      rw [← perm.mem_iff, List.mem_append, List.mem_append]
    refine ⟨new_nodup, fun b hb => (mem_all b).mpr (.inr hb), fun a ha => ?_, fun b hb => ?_,
      fun b hb absent => ?_⟩
    · rw [← key_mem_filter_iff keys ha]
      constructor
      · intro mem
        have here : key a ∈ (l.filter stays).map key ++ rest := List.mem_append_left _ mem
        exact ⟨(mem_all _).mpr (.inl (.inl mem)), fun drawn => fresh _ here _ drawn rfl⟩
      · rintro ⟨mem, absent⟩
        obtain (mem | mem) | mem := (mem_all _).mp mem
        · exact mem
        · exact absurd rfl (apart _ (List.mem_map_of_mem ha) _ mem)
        · exact absurd mem absent
    · have here : b ∈ (l.filter stays).map key ++ rest := List.mem_append_right _ hb
      exact ⟨(mem_all b).mpr (.inl (.inr hb)), fun drawn => fresh _ here _ drawn rfl⟩
    · obtain (mem | mem) | mem := (mem_all b).mp hb
      · exact absurd (List.mem_append_left _ (kept.subset mem)) absent
      · exact absurd (List.mem_append_right _ mem) absent
      · exact mem
  · rintro ⟨new_nodup, new_all, stay_iff, rest_all, others⟩
    have nodup : ((l.filter stays).map key ++ rest ++ new).Nodup := by
      rw [List.nodup_append]
      refine ⟨(kept.append_right rest).nodup distinct, new_nodup, ?_⟩
      rintro b mem _ drawn rfl
      obtain mem | mem := List.mem_append.mp mem
      · obtain ⟨a, mem', rfl⟩ := List.mem_map.mp mem
        obtain ⟨ha, stay⟩ := List.mem_filter.mp mem'
        exact ((stay_iff a ha).mp stay).2 drawn
      · exact (rest_all b mem).2 drawn
    rw [List.perm_ext_iff_of_nodup nodup unique]
    intro b
    rw [List.mem_append, List.mem_append]
    constructor
    · rintro ((mem | mem) | mem)
      · obtain ⟨a, mem', rfl⟩ := List.mem_map.mp mem
        obtain ⟨ha, stay⟩ := List.mem_filter.mp mem'
        exact ((stay_iff a ha).mp stay).1
      · exact (rest_all b mem).1
      · exact new_all b mem
    · intro mem
      by_cases drawn : b ∈ new
      · exact .inr drawn
      · have old : b ∈ l.map key ++ rest := by
          by_contra absent
          exact drawn (others b mem absent)
        obtain old | old := List.mem_append.mp old
        · obtain ⟨a, ha, rfl⟩ := List.mem_map.mp old
          have stay := (stay_iff a ha).mpr ⟨mem, drawn⟩
          exact .inl (.inl ((key_mem_filter_iff keys ha).mpr stay))
        · exact .inl (.inr old)

/-! ## A filter that removes one position -/

theorem cons_filter_ne {α : Type*} {p : α → Bool} {a : α} (kept : p a = true) (l : List α) :
    a :: l.filter p ≠ l := by
  intro same
  have all : ∀ d ∈ l, p d = true := by
    intro d mem
    rw [← same, List.mem_cons] at mem
    obtain rfl | mem := mem
    · exact kept
    · exact (List.mem_filter.mp mem).2
  have length := congrArg List.length same
  rw [List.filter_eq_self.mpr all, List.length_cons] at length
  omega

/-- What satisfies the predicate is removed, and this is the element at the position. -/
theorem filter_eq_eraseIdx_iff {α : Type*} (p : α → Bool) (l : List α) (i : Nat) :
    l.filter (fun d => !p d) = l.eraseIdx i ↔
      ∀ k d, l[k]? = some d → (p d = true ↔ k = i) := by
  induction l generalizing i with
  | nil => simp
  | cons a l ih =>
    have split : (∀ k d, (a :: l)[k]? = some d → (p d = true ↔ k = i)) ↔
        (p a = true ↔ 0 = i) ∧ ∀ k d, l[k]? = some d → (p d = true ↔ k + 1 = i) := by
      constructor
      · intro all
        exact ⟨all 0 a rfl, fun k d here => all (k + 1) d here⟩
      · rintro ⟨first, rest⟩ k d here
        cases k with
        | zero =>
          cases here
          exact first
        | succ k => exact rest k d here
    rw [split]
    cases i with
    | zero =>
      rw [List.eraseIdx_cons_zero]
      cases removed : p a with
      | true =>
        rw [List.filter_cons_of_neg (by simp [removed]), List.filter_eq_self]
        constructor
        · intro none_removed
          refine ⟨by simp, fun k d here => ?_⟩
          have kept := none_removed d (List.mem_of_getElem? here)
          simpa using kept
        · rintro ⟨-, rest⟩ d mem
          obtain ⟨k, here⟩ := List.mem_iff_getElem?.mp mem
          have kept := rest k d here
          simpa using kept
      | false =>
        rw [List.filter_cons_of_pos (by simp [removed])]
        apply iff_of_false
        · apply cons_filter_ne
          rw [removed]
          rfl
        · simp
    | succ i =>
      rw [List.eraseIdx_cons_succ]
      cases removed : p a with
      | true =>
        rw [List.filter_cons_of_neg (by simp [removed])]
        apply iff_of_false
        · intro same
          have mem : a ∈ l.filter fun d => !p d := by
            rw [same]
            exact List.mem_cons_self
          have := (List.mem_filter.mp mem).2
          simp [removed] at this
        · simp
      | false =>
        rw [List.filter_cons_of_pos (by simp [removed]), List.cons.injEq, ih]
        simp

/-! ## Lists of lists -/

/-- A key that occurs once in the whole says where it occurs. -/
theorem eq_of_flatten_nodup {β : Type*} {f : α → β} {L : List (List α)}
    (nodup : (L.flatten.map f).Nodup) {i j i' j' : Nat} {l l' : List α} {a a' : α}
    (hi : L[i]? = some l) (hj : l[j]? = some a) (hi' : L[i']? = some l')
    (hj' : l'[j']? = some a') (same : f a = f a') : i = i' ∧ j = j' := by
  rw [List.map_flatten, List.nodup_flatten] at nodup
  obtain ⟨each, apart⟩ := nodup
  have row {i : Nat} {l : List α} (hi : L[i]? = some l) :
      (L.map (List.map f))[i]? = some (l.map f) := by
    rw [List.getElem?_map, hi, Option.map_some]
  have entry {j : Nat} {l : List α} {a : α} (hj : l[j]? = some a) :
      (l.map f)[j]? = some (f a) := by
    rw [List.getElem?_map, hj, Option.map_some]
  have never {i i' j j' : Nat} {l l' : List α} {a a' : α} (hi : L[i]? = some l)
      (hj : l[j]? = some a) (hi' : L[i']? = some l') (hj' : l'[j']? = some a')
      (same : f a = f a') (before : i < i') : False := by
    obtain ⟨bound, at_i⟩ := List.getElem?_eq_some_iff.mp (row hi)
    obtain ⟨bound', at_i'⟩ := List.getElem?_eq_some_iff.mp (row hi')
    have disjoint := List.pairwise_iff_getElem.mp apart i i' bound bound' before
    rw [at_i, at_i'] at disjoint
    apply disjoint (List.mem_of_getElem? (entry hj))
    rw [same]
    exact List.mem_of_getElem? (entry hj')
  rcases lt_trichotomy i i' with before | rfl | after
  · exact (never hi hj hi' hj' same before).elim
  · have sameRow := Option.some.inj (hi.symm.trans hi')
    subst sameRow
    obtain ⟨bound, _⟩ := List.getElem?_eq_some_iff.mp (entry hj)
    have once := each _ (List.mem_of_getElem? (row hi))
    refine ⟨rfl, List.getElem?_inj bound once |>.mp ?_⟩
    rw [entry hj, entry hj', same]
  · exact (never hi' hj' hi hj same.symm after).elim

end Positions
