import GigaPdf.Lib.Text
import Mathlib.Data.List.Basic

/-!
# Patterns

Regular patterns without repetition, over any alphabet, matched at the start of a text. The texts
that a separator cuts into fields are matched field by field.
-/

namespace Patterns

open Text

variable {α : Type}

inductive Pattern (α : Type)
  | empty
  | one (admits : α → Bool)
  | seq (p q : Pattern α)
  | alt (p q : Pattern α)

/-- The words of a pattern. -/
def Pattern.Accepts : Pattern α → List α → Prop
  | .empty, w => w = []
  | .one admits, w => ∃ a, w = [a] ∧ admits a = true
  | .seq p q, w => ∃ u v, w = u ++ v ∧ p.Accepts u ∧ q.Accepts v
  | .alt p q, w => p.Accepts w ∨ q.Accepts w

/-- What may follow a word of the pattern at the start of the text. -/
def Pattern.rests : Pattern α → List α → List (List α)
  | .empty, s => [s]
  | .one _, [] => []
  | .one admits, a :: s => if admits a then [s] else []
  | .seq p q, s => (p.rests s).flatMap q.rests
  | .alt p q, s => p.rests s ++ q.rests s

theorem mem_rests {p : Pattern α} {s r : List α} :
    r ∈ p.rests s ↔ ∃ w, p.Accepts w ∧ s = w ++ r := by
  induction p generalizing s r with
  | empty => simp [Pattern.rests, Pattern.Accepts, eq_comm]
  | one admits =>
    cases s with
    | nil =>
      constructor
      · intro mem
        cases mem
      · rintro ⟨w, ⟨a, rfl, -⟩, split⟩
        cases split
    | cons a s =>
      rw [Pattern.rests]
      constructor
      · intro mem
        split at mem
        · rename_i admitted
          rw [List.mem_singleton.mp mem]
          exact ⟨[a], ⟨a, rfl, admitted⟩, rfl⟩
        · cases mem
      · rintro ⟨w, ⟨b, rfl, admitted⟩, split⟩
        obtain ⟨rfl, rfl⟩ := List.cons.inj split
        rw [if_pos admitted]
        exact List.mem_singleton.mpr rfl
  | seq p q ihp ihq =>
    rw [Pattern.rests, List.mem_flatMap]
    constructor
    · rintro ⟨t, first, second⟩
      obtain ⟨u, wordU, rfl⟩ := ihp.mp first
      obtain ⟨v, wordV, rfl⟩ := ihq.mp second
      exact ⟨u ++ v, ⟨u, v, rfl, wordU, wordV⟩, by rw [List.append_assoc]⟩
    · rintro ⟨w, ⟨u, v, rfl, wordU, wordV⟩, rfl⟩
      exact ⟨v ++ r, ihp.mpr ⟨u, wordU, by rw [List.append_assoc]⟩, ihq.mpr ⟨v, wordV, rfl⟩⟩
  | alt p q ihp ihq =>
    rw [Pattern.rests, List.mem_append, ihp, ihq]
    constructor
    · rintro (⟨w, word, cut⟩ | ⟨w, word, cut⟩)
      · exact ⟨w, .inl word, cut⟩
      · exact ⟨w, .inr word, cut⟩
    · rintro ⟨w, word | word, cut⟩
      · exact .inl ⟨w, word, cut⟩
      · exact .inr ⟨w, word, cut⟩

/-- The text is a word of the pattern. -/
def Pattern.accepts (p : Pattern α) (s : List α) : Bool := (p.rests s).any List.isEmpty

theorem accepts_iff {p : Pattern α} {w : List α} : p.accepts w = true ↔ p.Accepts w := by
  rw [Pattern.accepts, List.any_eq_true]
  constructor
  · rintro ⟨r, rest, none⟩
    obtain ⟨v, word, rfl⟩ := mem_rests.mp rest
    rw [List.isEmpty_iff.mp none, List.append_nil]
    exact word
  · intro word
    exact ⟨[], mem_rests.mpr ⟨w, word, by rw [List.append_nil]⟩, rfl⟩

/-- A pattern at the start of a text, and at its end too if it is said so. -/
structure RegExp (α : Type) where
  body : Pattern α
  atEnd : Bool

def RegExp.test (re : RegExp α) (s : List α) : Bool :=
  (re.body.rests s).any fun r => !re.atEnd || r.isEmpty

/-! ## Symbols -/

def symbols (l : List (α → Bool)) : Pattern α :=
  l.foldr (fun admits p => .seq (.one admits) p) .empty

@[simp]
theorem test_symbols_nil (s : List α) : RegExp.test ⟨symbols [], false⟩ s = true := rfl

@[simp]
theorem test_symbols_end (s : List α) : RegExp.test ⟨symbols [], true⟩ s = s.isEmpty := by
  simp [RegExp.test, symbols, Pattern.rests]

@[simp]
theorem test_symbols_cons_nil (admits : α → Bool) (l : List (α → Bool)) (e : Bool) :
    RegExp.test ⟨symbols (admits :: l), e⟩ [] = false := rfl

@[simp]
theorem test_symbols_cons (admits : α → Bool) (l : List (α → Bool)) (e : Bool) (a : α)
    (s : List α) :
    RegExp.test ⟨symbols (admits :: l), e⟩ (a :: s) =
      (admits a && RegExp.test ⟨symbols l, e⟩ s) := by
  cases admitted : admits a with
  | false => simp [RegExp.test, symbols, Pattern.rests, admitted]
  | true => simp [RegExp.test, symbols, Pattern.rests, admitted]

/-! ## Fields -/

/-- No word of the pattern has the separator. -/
def Pattern.Avoids (p : Pattern α) (sep : α) : Prop := ∀ w, p.Accepts w → sep ∉ w

theorem avoids_one {sep : α} {admits : α → Bool} (other : admits sep = false) :
    (Pattern.one admits).Avoids sep := by
  rintro w ⟨a, rfl, admitted⟩ mem
  rw [List.mem_singleton.mp mem, admitted] at other
  cases other

theorem Pattern.Avoids.seq {sep : α} {p q : Pattern α} (hp : p.Avoids sep) (hq : q.Avoids sep) :
    (Pattern.seq p q).Avoids sep := by
  rintro w ⟨u, v, rfl, first, second⟩ mem
  obtain mem | mem := List.mem_append.mp mem
  · exact hp u first mem
  · exact hq v second mem

theorem Pattern.Avoids.alt {sep : α} {p q : Pattern α} (hp : p.Avoids sep) (hq : q.Avoids sep) :
    (Pattern.alt p q).Avoids sep := by
  rintro w (accepted | accepted) mem
  · exact hp w accepted mem
  · exact hq w accepted mem

section
variable [DecidableEq α]

/-- The pattern of one word. -/
def word (w : List α) : Pattern α := symbols (w.map fun a b => b == a)

theorem accepts_word {w s : List α} : (word w).Accepts s ↔ s = w := by
  induction w generalizing s with
  | nil => rfl
  | cons a w ih =>
    constructor
    · rintro ⟨u, v, rfl, ⟨b, rfl, same⟩, rest⟩
      rw [ih.mp rest, eq_of_beq same]
      rfl
    · rintro rfl
      exact ⟨[a], w, rfl, ⟨a, rfl, beq_self_eq_true a⟩, ih.mpr rfl⟩

/-- A word of `p`, the separator, and then `q`. -/
def field (sep : α) (p q : Pattern α) : Pattern α := .seq p (.seq (.one (· == sep)) q)

theorem mem_rests_field {sep : α} {p q : Pattern α} {x s r : List α} (avoids : p.Avoids sep)
    (absent : sep ∉ x) :
    r ∈ (field sep p q).rests (x ++ sep :: s) ↔ p.Accepts x ∧ r ∈ q.rests s := by
  rw [mem_rests, mem_rests]
  constructor
  · rintro ⟨w, ⟨u, v, rfl, first, ⟨m, t, rfl, ⟨b, rfl, same⟩, second⟩⟩, cut⟩
    rw [eq_of_beq same, List.append_assoc, List.append_assoc, List.singleton_append] at cut
    obtain ⟨rfl, rfl⟩ := split_first cut absent (avoids u first)
    exact ⟨first, t, second, rfl⟩
  · rintro ⟨first, t, second, rfl⟩
    refine ⟨x ++ ([sep] ++ t), ⟨x, [sep] ++ t, rfl, first, [sep], t, rfl, ?_, second⟩, by simp⟩
    exact ⟨sep, rfl, beq_self_eq_true sep⟩

/-- A text is tested field by field. -/
theorem test_field {sep : α} {p q : Pattern α} {e : Bool} {x s : List α} (avoids : p.Avoids sep)
    (absent : sep ∉ x) :
    RegExp.test ⟨field sep p q, e⟩ (x ++ sep :: s) =
      (p.accepts x && RegExp.test ⟨q, e⟩ s) := by
  rw [Bool.eq_iff_iff, Bool.and_eq_true, accepts_iff]
  simp only [RegExp.test, List.any_eq_true, mem_rests_field avoids absent]
  constructor
  · rintro ⟨r, ⟨first, second⟩, ends⟩
    exact ⟨first, r, second, ends⟩
  · rintro ⟨first, r, second, ends⟩
    exact ⟨r, ⟨first, second⟩, ends⟩

theorem avoids_word {sep : α} {w : List α} (absent : sep ∉ w) : (word w).Avoids sep := by
  intro s accepted
  rw [accepts_word.mp accepted]
  exact absent

end

end Patterns
