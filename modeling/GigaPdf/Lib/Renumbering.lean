import Mathlib.Data.List.InsertIdx
import Mathlib.Data.List.Perm.Basic

/-!
# Renumbering

Where the entries of a list stand after an entry is inserted, erased or moved.
-/

namespace Renumbering

variable {α : Type*}

/-- The position of the entry at `i` after an insertion at `k`. -/
def inserted (k i : Nat) : Nat := if i < k then i else i + 1

theorem getElem?_inserted {k : Nat} {l : List α} (a : α) (i : Nat) :
    (l.insertIdx k a)[inserted k i]? = l[i]? := by
  rw [inserted]
  split
  · rename_i before
    rw [List.getElem?_insertIdx_of_lt before]
  · rw [List.getElem?_insertIdx_of_gt (by omega), Nat.add_sub_cancel]

theorem inserted_eq_iff {k i : Nat} : inserted k i = i ↔ i < k := by
  rw [inserted]
  split <;> omega

/-- The position of the entry at `i` after the one at `k` is erased. -/
def erased (k i : Nat) : Nat := if i < k then i else i - 1

theorem getElem?_erased {k i : Nat} (other : i ≠ k) (l : List α) :
    (l.eraseIdx k)[erased k i]? = l[i]? := by
  rw [erased]
  split
  · rename_i before
    rw [List.getElem?_eraseIdx_of_lt before]
  · rw [List.getElem?_eraseIdx_of_ge (by omega), Nat.sub_add_cancel (by omega)]

theorem erased_eq_iff {k i : Nat} (other : i ≠ k) : erased k i = i ↔ i < k := by
  rw [erased]
  split <;> omega

/-- The entry at `k` is taken out and put back at `m`. -/
def move (k m : Nat) (l : List α) : List α :=
  match l[k]? with
  | some a => (l.eraseIdx k).insertIdx m a
  | none => l

/-- The position of the entry at `i` after the one at `k` has moved to `m`. -/
def moved (k m i : Nat) : Nat := if i = k then m else inserted m (erased k i)

theorem move_eq {k : Nat} {l : List α} (bound : k < l.length) (m : Nat) :
    move k m l = (l.eraseIdx k).insertIdx m l[k] := by
  rw [move, List.getElem?_eq_getElem bound]

theorem getElem?_moved {k m : Nat} {l : List α} (bound : k < l.length) (bound' : m < l.length)
    (i : Nat) : (move k m l)[moved k m i]? = l[i]? := by
  have length := List.length_eraseIdx_of_lt bound
  rw [move_eq bound, moved]
  split
  · rename_i here
    rw [List.getElem?_insertIdx_self, if_pos (by omega), here, List.getElem?_eq_getElem bound]
  · rename_i other
    rw [getElem?_inserted, getElem?_erased other]

theorem moved_eq_iff {k m : Nat} (apart : k ≠ m) {i : Nat} :
    moved k m i = i ↔ i < min k m ∨ max k m < i := by
  rw [moved, inserted, erased]
  split_ifs <;> omega

theorem length_move {k m : Nat} {l : List α} (bound : k < l.length) (bound' : m < l.length) :
    (move k m l).length = l.length := by
  have length := List.length_eraseIdx_of_lt bound
  rw [move_eq bound, List.length_insertIdx_of_le_length (by omega)]
  omega

theorem move_perm {k m : Nat} {l : List α} (bound : k < l.length) (bound' : m < l.length) :
    (move k m l).Perm l := by
  have length := List.length_eraseIdx_of_lt bound
  rw [move_eq bound]
  exact (List.perm_insertIdx _ _ (by omega)).trans (List.getElem_cons_eraseIdx_perm bound)

/-! ## Neighbours -/

theorem exists_neighbours {l : List α} {i : Nat} (bound : i + 1 < l.length) :
    ∃ as x y bs, l = as ++ x :: y :: bs ∧ as.length = i := by
  refine ⟨l.take i, l[i], l[i + 1], l.drop (i + 2), ?_, ?_⟩
  · rw [← List.drop_eq_getElem_cons bound, ← List.drop_eq_getElem_cons (by omega),
      List.take_append_drop]
  · rw [List.length_take]
    omega

/-- An entry that moves behind the next one. -/
theorem move_forward (as bs : List α) (x y : α) :
    move as.length (as.length + 1) (as ++ x :: y :: bs) = as ++ y :: x :: bs := by
  have here : (as ++ x :: y :: bs)[as.length]? = some x := by simp
  simp only [move, here]
  induction as with
  | nil => rfl
  | cons a as ih =>
    rw [List.cons_append, List.length_cons, List.eraseIdx_cons_succ, List.insertIdx_succ_cons,
      ih (by simp)]
    rfl

/-- An entry that moves in front of the one before. -/
theorem move_back (as bs : List α) (x y : α) :
    move (as.length + 1) as.length (as ++ x :: y :: bs) = as ++ y :: x :: bs := by
  have here : (as ++ x :: y :: bs)[as.length + 1]? = some y := by simp
  simp only [move, here]
  induction as with
  | nil => rfl
  | cons a as ih =>
    rw [List.cons_append, List.length_cons, List.eraseIdx_cons_succ, List.insertIdx_succ_cons,
      ih (by simp)]
    rfl

end Renumbering
