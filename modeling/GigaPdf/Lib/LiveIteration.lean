import Mathlib.Algebra.Group.Nat.Even
import Mathlib.Data.List.DropRight
import Mathlib.Data.List.Nodup

/-!
# Iterating over a list that is changed meanwhile

A loop by index over a list whose items are called one after the other. Some of them take themselves
out of the list when they are called, and the item behind then moves to an index that the loop has
passed.
-/

namespace LiveIteration

variable {α : Type*} [DecidableEq α] (once : α → Bool)

/-- What is left of the list, and the items that were called. -/
def loop (items : List α) (i : Nat) (called : List α) : List α × List α :=
  if h : i < items.length then
    if once items[i] then loop (items.erase items[i]) (i + 1) (called ++ [items[i]])
    else loop items (i + 1) (called ++ [items[i]])
  else (items, called)
termination_by items.length - i
decreasing_by
  · rw [List.length_erase_of_mem (List.getElem_mem h)]
    omega
  · omega

def deliver (items : List α) : List α × List α := loop once items 0 []

end LiveIteration

namespace LiveIteration

variable {α : Type*} (once : α → Bool)

/-- What is left: an item that goes is followed by one that is passed over. -/
def left : List α → List α
  | [] => []
  | [a] => if once a then [] else [a]
  | a :: b :: items => if once a then b :: left items else a :: left (b :: items)

/-- The items that are called. -/
def calls : List α → List α
  | [] => []
  | [a] => [a]
  | a :: b :: items => if once a then a :: calls items else a :: calls (b :: items)

/-- One round, where no item that goes stands twice in the list. -/
theorem loop_cons [DecidableEq α] {front rest : List α} {a : α}
    (nodup : ((front ++ a :: rest).filter once).Nodup) (called : List α) :
    loop once (front ++ a :: rest) front.length called =
      if once a then loop once (front ++ rest) (front.length + 1) (called ++ [a])
      else loop once (front ++ a :: rest) (front.length + 1) (called ++ [a]) := by
  have here : ∀ _ : front.length < (front ++ a :: rest).length,
      (front ++ a :: rest)[front.length] = a := by simp
  rw [loop, dif_pos (by simp), here]
  by_cases goes : once a = true
  · have other : a ∉ front := fun mem => by
      rw [List.filter_append, List.nodup_append] at nodup
      exact nodup.2.2 a (List.mem_filter.mpr ⟨mem, goes⟩) a
        (List.mem_filter.mpr ⟨List.mem_cons_self, goes⟩) rfl
    rw [if_pos goes, if_pos goes, List.erase_append_right _ other, List.erase_cons_head]
  · rw [if_neg goes, if_neg goes]

theorem loop_end [DecidableEq α] {front : List α} {i : Nat} (past : front.length ≤ i)
    (called : List α) : loop once front i called = (front, called) := by
  rw [loop, dif_neg (Nat.not_lt.mpr past)]

theorem loop_append [DecidableEq α] (front : List α) {rest : List α}
    (nodup : ((front ++ rest).filter once).Nodup) (called : List α) :
    loop once (front ++ rest) front.length called =
      (front ++ left once rest, called ++ calls once rest) := by
  fun_induction calls once rest generalizing front called with
  | case1 => simpa [left] using loop_end once (Nat.le_refl front.length) called
  | case2 a =>
    rw [loop_cons once nodup, left]
    split
    · simpa using loop_end once (Nat.le_succ front.length) (called ++ [a])
    · exact loop_end once (by simp) (called ++ [a])
  | case3 a b items goes ih =>
    have shorter : ((front ++ b :: items).filter once).Nodup :=
      nodup.sublist (((List.sublist_cons_self a (b :: items)).append_left front).filter once)
    have rest := ih (front ++ [b]) (by simpa using shorter) (called ++ [a])
    rw [loop_cons once nodup, if_pos goes, left, if_pos goes]
    simpa using rest
  | case4 a b items stays ih =>
    have rest := ih (front ++ [a]) (by simpa using nodup) (called ++ [a])
    rw [loop_cons once nodup, if_neg stays, left, if_neg stays]
    simpa using rest

/-- The loop as a recursion. -/
theorem deliver_eq [DecidableEq α] {items : List α} (nodup : (items.filter once).Nodup) :
    deliver once items = (left once items, calls once items) :=
  loop_append once [] nodup []

theorem calls_sublist (items : List α) : (calls once items).Sublist items := by
  fun_induction calls once items with
  | case1 => exact .slnil
  | case2 a => exact List.Sublist.refl _
  | case3 a b items _ ih => exact (ih.cons b).cons_cons a
  | case4 a b items _ ih => exact ih.cons_cons a

/-- At most half of the items that go are still there afterwards. -/
theorem two_mul_countP_left (items : List α) :
    2 * (left once items).countP once ≤ items.countP once := by
  fun_induction left once items with
  | case1 => simp
  | case2 a goes => simp
  | case3 a stays => simp [stays]
  | case4 a b items goes ih =>
    simp only [List.countP_cons, goes]
    split <;> simp <;> omega
  | case5 a b items stays ih => simpa [List.countP_cons, stays] using ih

/-- Whether the next item is passed over, after these. -/
def passes (items : List α) : Bool :=
  items.foldl (fun skip a => !skip && once a) false

theorem passes_concat (items : List α) (a : α) :
    passes once (items ++ [a]) = (!passes once items && once a) := by
  simp [passes]

theorem passes_eq_false_iff (items : List α) :
    passes once items = false ↔ Even (items.rtakeWhile once).length := by
  induction items using List.reverseRecOn with
  | nil => simp [passes]
  | append_singleton items a ih =>
    rw [passes_concat, List.rtakeWhile_concat]
    by_cases goes : once a = true
    · rw [if_pos goes, List.length_append, List.length_singleton, Nat.even_add_one, ← ih]
      simp [goes]
    · simp [goes]

theorem mem_calls_iff_passes {before after : List α} {c : α} (first : c ∉ before)
    (last : c ∉ after) : c ∈ calls once (before ++ c :: after) ↔ passes once before = false := by
  fun_induction calls once before with
  | case1 => cases after <;> simp [calls, passes, apply_ite (c ∈ ·)]
  | case2 a =>
    have other : c ≠ a := fun same => first (same ▸ List.mem_cons_self)
    by_cases goes : once a = true
    · have uncalled : c ∉ calls once after := fun mem =>
        last ((calls_sublist once after).subset mem)
      simp [calls, passes, goes, other, uncalled]
    · cases after <;> simp [calls, passes, goes, apply_ite (c ∈ ·)]
  | case3 a b before goes ih =>
    obtain ⟨other, rest⟩ := not_or.mp (List.mem_cons.not.mp first)
    rw [List.cons_append, List.cons_append, calls, if_pos goes, List.mem_cons,
      ih (not_or.mp (List.mem_cons.not.mp rest)).2]
    simp [passes, goes, other]
  | case4 a b before stays ih =>
    obtain ⟨other, rest⟩ := not_or.mp (List.mem_cons.not.mp first)
    rw [List.cons_append, List.cons_append, calls, if_neg stays, List.mem_cons, ← List.cons_append,
      ih rest]
    simp [passes, stays, other]

/-- An item that stands once in the list is called just when an even number of items that go stand
right before it. -/
theorem mem_calls_iff {before after : List α} {c : α} (first : c ∉ before) (last : c ∉ after) :
    c ∈ calls once (before ++ c :: after) ↔ Even (before.rtakeWhile once).length := by
  rw [mem_calls_iff_passes once first last, passes_eq_false_iff]

end LiveIteration
