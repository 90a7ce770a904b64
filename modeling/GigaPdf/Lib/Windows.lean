import Mathlib.Data.List.Basic

/-!
# Edit windows

Two lists with a common start and a common end differ only in the window between them. What lies
outside the window of an edit is spliced around its new content.
-/

namespace Windows

variable {α : Type*}

/-- How many entries the lists have in common at the start. -/
def commonPrefix [DecidableEq α] : List α → List α → Nat
  | a :: l, b :: m => if a = b then commonPrefix l m + 1 else 0
  | _, _ => 0

attribute [grind] commonPrefix

/-- How many they have in common at the end, behind what is common at the start. -/
def commonSuffix [DecidableEq α] (l m : List α) : Nat :=
  min (min l.length m.length - commonPrefix l m) (commonPrefix l.reverse m.reverse)

section
variable [DecidableEq α]

theorem commonPrefix_le (l m : List α) : commonPrefix l m ≤ min l.length m.length := by
  induction l generalizing m with
  | nil => simp [commonPrefix]
  | cons a l ih =>
    cases m with
    | nil => simp [commonPrefix]
    | cons b m =>
      have := ih m
      rw [commonPrefix]
      split
      · simp only [List.length_cons]
        omega
      · omega

theorem take_commonPrefix (l m : List α) {n : Nat} (bound : n ≤ commonPrefix l m) :
    l.take n = m.take n := by
  induction l generalizing m n with
  | nil =>
    rw [commonPrefix] at bound
    · rw [Nat.le_zero.mp bound, List.take_zero, List.take_zero]
    · nofun
  | cons a l ih =>
    cases m with
    | nil =>
      rw [commonPrefix] at bound
      · rw [Nat.le_zero.mp bound, List.take_zero, List.take_zero]
      · nofun
    | cons b m =>
      rw [commonPrefix] at bound
      split at bound
      · rename_i same
        cases n with
        | zero => rfl
        | succ n => rw [List.take_succ_cons, List.take_succ_cons, same, ih m (by omega)]
      · rw [Nat.le_zero.mp bound, List.take_zero, List.take_zero]

theorem commonSuffix_le (l m : List α) :
    commonPrefix l m + commonSuffix l m ≤ min l.length m.length := by
  have := commonPrefix_le l m
  rw [commonSuffix]
  omega

theorem drop_commonSuffix (l m : List α) :
    l.drop (l.length - commonSuffix l m) = m.drop (m.length - commonSuffix l m) := by
  have same := take_commonPrefix l.reverse m.reverse (n := commonSuffix l m) (Nat.min_le_right _ _)
  rw [List.take_reverse, List.take_reverse] at same
  exact List.reverse_injective same

theorem le_commonPrefix {l m : List α} {n : Nat} (fits : n ≤ min l.length m.length)
    (same : l.take n = m.take n) : n ≤ commonPrefix l m := by
  induction n generalizing l m with
  | zero => exact Nat.zero_le _
  | succ n ih =>
    cases l with
    | nil => simp at fits
    | cons a l =>
      cases m with
      | nil => simp at fits
      | cons b m =>
        rw [List.take_succ_cons, List.take_succ_cons, List.cons.injEq] at same
        rw [commonPrefix, if_pos same.1]
        simp only [List.length_cons] at fits
        exact Nat.succ_le_succ (ih (by omega) same.2)

theorem le_commonSuffix {l m : List α} {n : Nat}
    (fits : commonPrefix l m + n ≤ min l.length m.length)
    (same : l.drop (l.length - n) = m.drop (m.length - n)) : n ≤ commonSuffix l m := by
  have reversed : l.reverse.take n = m.reverse.take n := by
    rw [List.take_reverse, List.take_reverse, same]
  have := le_commonPrefix (by rw [List.length_reverse, List.length_reverse]; omega) reversed
  rw [commonSuffix]
  omega

end

/-- The window of an edit: the longest common start, and the longest common end of the rests. -/
structure Window (old new : List α) (p s : Nat) : Prop where
  fits : p + s ≤ min old.length new.length
  front : old.take p = new.take p
  back : old.drop (old.length - s) = new.drop (new.length - s)
  longestFront : ∀ n ≤ min old.length new.length, old.take n = new.take n → n ≤ p
  longestBack : ∀ n, p + n ≤ min old.length new.length →
    old.drop (old.length - n) = new.drop (new.length - n) → n ≤ s

/-- There is one window, which the scans find. -/
theorem window_iff [DecidableEq α] {old new : List α} {p s : Nat} :
    Window old new p s ↔ p = commonPrefix old new ∧ s = commonSuffix old new := by
  have first := commonPrefix_le old new
  have second := commonSuffix_le old new
  constructor
  · intro window
    have fits := window.fits
    obtain rfl : p = commonPrefix old new :=
      Nat.le_antisymm (le_commonPrefix (by omega) window.front)
        (window.longestFront _ first (take_commonPrefix old new (Nat.le_refl _)))
    exact ⟨rfl, Nat.le_antisymm (le_commonSuffix fits window.back)
      (window.longestBack _ second (drop_commonSuffix old new))⟩
  · rintro ⟨rfl, rfl⟩
    exact ⟨second, take_commonPrefix old new (Nat.le_refl _), drop_commonSuffix old new,
      fun _ => le_commonPrefix, fun _ => le_commonSuffix⟩

/-- The text with other content in the place of a range. -/
def replaced (text : List α) (start stop : Nat) (content : List α) : List α :=
  text.take start ++ content ++ text.drop stop

/-- `text.slice(start, stop)` -/
def slice (text : List α) (start stop : Nat) : List α := (text.take stop).drop start

theorem replaced_append {before piece after : List α} (content : List α) :
    replaced (before ++ (piece ++ after)) before.length (before.length + piece.length) content =
      before ++ (content ++ after) := by
  rw [replaced, List.take_left, ← List.append_assoc before, ← List.length_append, List.drop_left,
    List.append_assoc]

/-- The slices before the range stay where they are, and those behind it are shifted. -/
theorem slice_replaced_before (text content : List α) {start stop s e : Nat} (before : e ≤ start)
    (inside : start ≤ text.length) : slice (replaced text start stop content) s e = slice text s e := by
  rw [slice, slice, replaced, List.append_assoc, List.take_append_of_le_length, List.take_take,
    Nat.min_eq_left before]
  rw [List.length_take_of_le inside]
  exact before

theorem slice_replaced_behind (text content : List α) {start stop s e : Nat} (behind : stop ≤ s)
    (order : s ≤ e) (inside : start ≤ text.length) :
    slice (replaced text start stop content) (start + content.length + (s - stop))
      (start + content.length + (e - stop)) = slice text s e := by
  have length : (text.take start ++ content).length = start + content.length := by
    rw [List.length_append, List.length_take_of_le inside]
  rw [slice, slice, replaced, ← length, List.take_length_add_append, List.drop_length_add_append,
    List.take_drop, List.drop_drop]
  congr 2 <;> omega

/-- The whole is around the new content what it was around the old. -/
theorem splice {start piece stop old new : List α} {p oldEnd newEnd : Nat}
    (whole : old = start ++ (piece ++ stop)) (front : old.take p = new.take p)
    (back : old.drop oldEnd = new.drop newEnd) (oldWindow : p ≤ oldEnd) (newWindow : p ≤ newEnd)
    (low : start.length ≤ p) (high : oldEnd ≤ start.length + piece.length) :
    new = start ++ ((piece.take (p - start.length) ++ (new.drop p).take (newEnd - p) ++
      piece.drop (oldEnd - start.length)) ++ stop) := by
  have before : new.take p = start ++ piece.take (p - start.length) := by
    rw [← front, whole, List.take_append, List.take_of_length_le low,
      List.take_append_of_le_length (by omega)]
  have behind : new.drop newEnd = piece.drop (oldEnd - start.length) ++ stop := by
    rw [← back, whole, List.drop_append, List.drop_eq_nil_of_le (by omega), List.nil_append,
      List.drop_append_of_le_length (by omega)]
  calc new = new.take p ++ ((new.drop p).take (newEnd - p) ++ (new.drop p).drop (newEnd - p)) := by
        rw [List.take_append_drop, List.take_append_drop]
    _ = _ := by
        rw [List.drop_drop, Nat.add_sub_cancel' newWindow, before, behind]
        simp only [List.append_assoc]

theorem split_at {l : List α} {k : Nat} {a : α} (here : l[k]? = some a) :
    ∃ before after, l = before ++ a :: after ∧ before.length = k := by
  obtain ⟨bound, rfl⟩ := List.getElem?_eq_some_iff.mp here
  refine ⟨l.take k, l.drop (k + 1), ?_, List.length_take_of_le (Nat.le_of_lt bound)⟩
  rw [← List.drop_eq_getElem_cons, List.take_append_drop]

end Windows
