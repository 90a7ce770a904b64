import Mathlib.Data.List.Basic
import Mathlib.Data.List.Induction
import Mathlib.Data.List.TakeWhile

/-!
# Scanning

Texts over any alphabet, with a predicate for blanks and one for digits. A text is trimmed, and its
leading digits are read as a number; a numeral with blanks around it is read as its value.
-/

namespace Scanning

variable {α : Type*}

/-! ## Blanks -/

section
variable (blank : α → Bool)

def Blanks (s : List α) : Prop := ∀ c ∈ s, blank c = true

/-- The text is `core` with blanks around it. -/
def Padded (core s : List α) : Prop :=
  ∃ b b', Blanks blank b ∧ Blanks blank b' ∧ s = b ++ core ++ b'

def trimEnd (s : List α) : List α := (s.reverse.dropWhile blank).reverse

def trim (s : List α) : List α := trimEnd blank (s.dropWhile blank)

variable {blank}

theorem dropWhile_blanks {b s : List α} (blanks : Blanks blank b) :
    (b ++ s).dropWhile blank = s.dropWhile blank :=
  List.dropWhile_append_of_pos blanks

theorem trimEnd_blanks {b s : List α} (blanks : Blanks blank b) :
    trimEnd blank (s ++ b) = trimEnd blank s := by
  rw [trimEnd, List.reverse_append, dropWhile_blanks, trimEnd]
  intro c mem
  exact blanks c (List.mem_reverse.mp mem)

/-- The trim stops at an item that is no blank. -/
theorem trimEnd_concat {c : α} (dark : blank c = false) (s : List α) :
    trimEnd blank (s ++ [c]) = s ++ [c] := by
  rw [trimEnd, List.reverse_append, List.reverse_singleton, List.singleton_append,
    List.dropWhile_cons_of_neg (by rw [dark]; exact Bool.false_ne_true), List.reverse_cons,
    List.reverse_reverse]

theorem trimEnd_append_cons {c : α} (dark : blank c = false) (s t : List α) :
    trimEnd blank (s ++ c :: t) = s ++ c :: trimEnd blank t := by
  induction t using List.reverseRecOn with
  | nil =>
    rw [trimEnd_concat dark]
    rfl
  | append_singleton t d ih =>
    cases shade : blank d with
    | true =>
      have blanks : Blanks blank [d] := by
        intro e mem
        rwa [List.mem_singleton.mp mem]
      rw [trimEnd_blanks blanks, ← ih, ← List.cons_append, ← List.append_assoc,
        trimEnd_blanks blanks]
    | false =>
      rw [trimEnd_concat shade, ← List.cons_append, ← List.append_assoc, trimEnd_concat shade]

/-- An item that is no blank stays where it is, and the two sides are trimmed. -/
theorem trim_append_cons {c : α} (dark : blank c = false) (s t : List α) :
    trim blank (s ++ c :: t) = s.dropWhile blank ++ c :: trimEnd blank t := by
  rw [trim, List.dropWhile_append]
  split
  · rename_i empty
    rw [List.isEmpty_iff.mp empty,
      List.dropWhile_cons_of_neg (by rw [dark]; exact Bool.false_ne_true)]
    exact trimEnd_append_cons dark [] t
  · exact trimEnd_append_cons dark _ t

theorem trim_map {β : Type*} (blank : β → Bool) (f : α → β) (s : List α) :
    trim blank (s.map f) = (trim (blank ∘ f) s).map f := by
  rw [trim, trimEnd, List.dropWhile_map, ← List.map_reverse, List.dropWhile_map, ← List.map_reverse]
  rfl

theorem Padded.dropWhile {c : α} (dark : blank c = false) {core s : List α}
    (padded : Padded blank (c :: core) s) : Padded blank (c :: core) (s.dropWhile blank) := by
  obtain ⟨b, b', blanks, blanks', rfl⟩ := padded
  refine ⟨[], b', nofun, blanks', ?_⟩
  rw [List.append_assoc, dropWhile_blanks blanks, List.cons_append,
    List.dropWhile_cons_of_neg (by rw [dark]; exact Bool.false_ne_true)]
  rfl

theorem Padded.trimEnd {c : α} (dark : blank c = false) {core s : List α}
    (padded : Padded blank (core ++ [c]) s) : Padded blank (core ++ [c]) (trimEnd blank s) := by
  obtain ⟨b, b', blanks, blanks', rfl⟩ := padded
  refine ⟨b, [], blanks, nofun, ?_⟩
  rw [trimEnd_blanks blanks', ← List.append_assoc, trimEnd_concat dark, List.append_assoc,
    List.append_nil]

end

/-! ## Numbers -/

section
variable (digit : α → Bool) (worth : α → Nat)

/-- A text of digits. -/
def Numeral (s : List α) : Prop := s ≠ [] ∧ ∀ c ∈ s, digit c = true

def value (s : List α) : Nat := s.foldl (fun n c => 10 * n + worth c) 0

/-- The number at the start of the text, if it starts with a digit. -/
def leadingNumber (s : List α) : Option Nat :=
  match s.takeWhile digit with
  | [] => none
  | c :: digits => some (value worth (c :: digits))

variable {digit worth}

theorem leadingNumber_numeral {d s : List α} (numeral : Numeral digit d)
    (stops : ∀ c ∈ s, digit c = false) : leadingNumber digit worth (d ++ s) = some (value worth d) := by
  have read : (d ++ s).takeWhile digit = d := by
    rw [List.takeWhile_append_of_pos numeral.2, List.takeWhile_eq_nil_iff.mpr, List.append_nil]
    intro inside
    rw [stops _ (List.get_mem s ⟨0, inside⟩)]
    exact Bool.false_ne_true
  cases d with
  | nil => exact absurd rfl numeral.1
  | cons c d => rw [leadingNumber, read]

end

end Scanning
