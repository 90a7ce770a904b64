import Mathlib.Data.List.Infix

/-!
# Replacing what a pattern finds

A pattern is a list of needles. A scan from the left tries them in order at every place, and
compares characters up to `fold`. It cuts a text into pieces: `none` where it has found a needle,
and `some c` for a character between two finds.
-/

namespace Substitution

variable {α : Type*} (fold : α → α)

/-- The needle stands somewhere in the text. -/
def Occurs (needle text : List α) : Prop := needle.map fold <:+: text.map fold

def Mentions (needles : List (List α)) (text : List α) : Prop :=
  ∃ needle ∈ needles, Occurs fold needle text

section
variable [DecidableEq α]

instance (needle text : List α) : Decidable (Occurs fold needle text) :=
  inferInstanceAs (Decidable (_ <:+: _))

instance (needles : List (List α)) (text : List α) : Decidable (Mentions fold needles text) :=
  inferInstanceAs (Decidable (∃ _ ∈ _, _))

def startsWith (text needle : List α) : Bool := (needle.map fold).isPrefixOf (text.map fold)

/-- How much of the text is taken by the first needle that stands at its start. -/
def firstMatch (needles : List (List α)) (text : List α) : Option Nat :=
  (needles.find? (startsWith fold text)).map List.length

/-- The pieces after `skip` characters that a needle has taken. An empty needle is found before
every character that no other takes, and at the end. -/
def piecesFrom (needles : List (List α)) : Nat → List α → List (Option α)
  | _, [] => if [] ∈ needles then [none] else []
  | skip + 1, _ :: rest => piecesFrom needles skip rest
  | 0, c :: rest =>
    match firstMatch fold needles (c :: rest) with
    | none => some c :: piecesFrom needles 0 rest
    | some 0 => none :: some c :: piecesFrom needles 0 rest
    | some (n + 1) => none :: piecesFrom needles n rest

attribute [grind] piecesFrom

def pieces (needles : List (List α)) (text : List α) : List (Option α) :=
  piecesFrom fold needles 0 text

/-- The pieces with a placeholder for each find. -/
def reading (placeholder : List α) (p : List (Option α)) : List α :=
  p.flatMap fun piece => piece.elim placeholder fun c => [c]

def sub (needles : List (List α)) (placeholder text : List α) : List α :=
  reading placeholder (pieces fold needles text)

end

/-! ## What occurs in the pieces -/

/-- The needle stands between two finds. -/
def Stands (needle : List α) (p : List (Option α)) : Prop :=
  ∃ a b, ∃ m : List α, p = a ++ m.map some ++ b ∧ m.map fold = needle.map fold

/-- The needle is spelled with a part of a placeholder. -/
def Completed (placeholder needle : List α) (p : List (Option α)) : Prop :=
  ∃ a b, ∃ x m y : List α, p = a ++ none :: b ∧ reading placeholder p = x ++ m ++ y ∧
    m.map fold = needle.map fold ∧
    x.length < (reading placeholder a).length + placeholder.length ∧
    (reading placeholder a).length < x.length + m.length

section
variable {placeholder : List α}

@[simp] theorem reading_nil : reading placeholder [] = [] := rfl

@[simp] theorem reading_none (p : List (Option α)) :
    reading placeholder (none :: p) = placeholder ++ reading placeholder p := rfl

@[simp] theorem reading_some (c : α) (p : List (Option α)) :
    reading placeholder (some c :: p) = c :: reading placeholder p := rfl

@[simp] theorem reading_append (p q : List (Option α)) :
    reading placeholder (p ++ q) = reading placeholder p ++ reading placeholder q :=
  List.flatMap_append ..

@[simp] theorem reading_map_some (m : List α) : reading placeholder (m.map some) = m := by
  induction m with
  | nil => rfl
  | cons c m ih => rw [List.map_cons, reading_some, ih]

theorem occurs_iff {fold : α → α} {needle text : List α} :
    Occurs fold needle text ↔ ∃ x m y, text = x ++ m ++ y ∧ m.map fold = needle.map fold := by
  constructor
  · rintro ⟨u, v, h⟩
    obtain ⟨xm, y, rfl, hxm, _⟩ := List.map_eq_append_iff.mp h.symm
    obtain ⟨x, m, rfl, _, hm⟩ := List.map_eq_append_iff.mp hxm
    exact ⟨x, m, y, rfl, hm⟩
  · rintro ⟨x, m, y, rfl, hm⟩
    exact ⟨x.map fold, y.map fold, by rw [List.map_append, List.map_append, hm]⟩

/-- A stretch of the reading uses a placeholder, or is a stretch of the pieces. -/
theorem stretch_cases (nonempty : placeholder ≠ []) {p : List (Option α)} {x m y : List α}
    (h : reading placeholder p = x ++ m ++ y) (some_char : m ≠ []) :
    (∃ a b, p = a ++ none :: b ∧ x.length < (reading placeholder a).length + placeholder.length ∧
        (reading placeholder a).length < x.length + m.length) ∨
      ∃ a b, p = a ++ m.map some ++ b ∧ reading placeholder a = x := by
  induction p generalizing x m with
  | nil => simp_all
  | cons piece p ih =>
    cases piece with
    | none =>
      rw [reading_none] at h
      by_cases inside : x.length < placeholder.length
      · refine .inl ⟨[], p, rfl, by simpa using inside, ?_⟩
        have := List.length_pos_iff.mpr some_char
        simp only [reading_nil, List.length_nil]
        omega
      · obtain ⟨x', rfl⟩ : ∃ x', x = placeholder ++ x' := by
          rw [List.append_assoc] at h
          obtain ⟨rest, hx, -⟩ | ⟨rest, hp, -⟩ := List.append_eq_append_iff.mp h
          · exact ⟨rest, hx⟩
          · refine ⟨[], ?_⟩
            have := congrArg List.length hp
            simp only [List.length_append] at this
            have short : rest = [] := List.length_eq_zero_iff.mp (by omega)
            rw [hp, short, List.append_nil, List.append_nil]
        rw [List.append_assoc, List.append_assoc, List.append_right_inj, ← List.append_assoc] at h
        obtain ⟨a, b, rfl, low, high⟩ | ⟨a, b, rfl, ha⟩ := ih h some_char
        · refine .inl ⟨none :: a, b, rfl, ?_, ?_⟩ <;>
          · simp only [reading_none, List.length_append]
            omega
        · exact .inr ⟨none :: a, b, rfl, by rw [reading_none, ha]⟩
    | some c =>
      rw [reading_some] at h
      cases x with
      | cons d x =>
        simp only [List.cons_append, List.cons.injEq] at h
        obtain ⟨rfl, h⟩ := h
        obtain ⟨a, b, rfl, low, high⟩ | ⟨a, b, rfl, ha⟩ := ih h some_char
        · refine .inl ⟨some c :: a, b, rfl, ?_, ?_⟩ <;>
          · simp only [reading_some, List.length_cons]
            omega
        · exact .inr ⟨some c :: a, b, rfl, by rw [reading_some, ha]⟩
      | nil =>
        cases m with
        | nil => exact absurd rfl some_char
        | cons d m =>
          simp only [List.nil_append, List.cons_append, List.cons.injEq] at h
          obtain ⟨rfl, h⟩ := h
          by_cases last : m = []
          · subst last
            exact .inr ⟨[], p, rfl, rfl⟩
          · obtain ⟨a, b, rfl, low, high⟩ | ⟨a, b, rfl, ha⟩ := ih (x := []) h last
            · refine .inl ⟨some c :: a, b, rfl, ?_, ?_⟩ <;>
              · simp only [reading_some, List.length_cons, List.length_nil] at *
                omega
            · obtain rfl : a = [] := by
                cases a with
                | nil => rfl
                | cons piece a => cases piece <;> simp_all
              exact .inr ⟨[], b, rfl, rfl⟩

theorem occurs_reading_iff {fold : α → α} (nonempty : placeholder ≠ []) {needle : List α}
    {p : List (Option α)} : Occurs fold needle (reading placeholder p) ↔
      Stands fold needle p ∨ Completed fold placeholder needle p := by
  rw [occurs_iff]
  constructor
  · rintro ⟨x, m, y, h, hm⟩
    by_cases empty : m = []
    · exact .inl ⟨[], p, m, by rw [empty]; rfl, hm⟩
    · obtain ⟨a, b, hp, low, high⟩ | ⟨a, b, hp, -⟩ := stretch_cases nonempty h empty
      · exact .inr ⟨a, b, x, m, y, hp, h, hm, low, high⟩
      · exact .inl ⟨a, b, m, hp, hm⟩
  · rintro (⟨a, b, m, rfl, hm⟩ | ⟨a, b, x, m, y, -, h, hm, -⟩)
    · exact ⟨reading placeholder a, m, reading placeholder b, by simp, hm⟩
    · exact ⟨x, m, y, h, hm⟩

end

/-! ## What a scan leaves -/

section
variable [DecidableEq α] {fold : α → α} {needles : List (List α)}

theorem startsWith_iff {text needle : List α} :
    startsWith fold text needle = true ↔
      ∃ m y, text = m ++ y ∧ m.map fold = needle.map fold := by
  rw [startsWith, List.isPrefixOf_iff_prefix]
  constructor
  · rintro ⟨v, h⟩
    obtain ⟨m, y, rfl, hm, _⟩ := List.map_eq_append_iff.mp h.symm
    exact ⟨m, y, rfl, hm⟩
  · rintro ⟨m, y, rfl, hm⟩
    exact ⟨y.map fold, by rw [List.map_append, hm]⟩

/-- The longest needle at the start is taken. -/
theorem firstMatch_of_startsWith (longestFirst : needles.Pairwise fun a b => b.length ≤ a.length)
    {text needle : List α} (mem : needle ∈ needles) (here : startsWith fold text needle = true) :
    ∃ n, firstMatch fold needles text = some n ∧ needle.length ≤ n := by
  induction needles with
  | nil => cases mem
  | cons first rest ih =>
    obtain ⟨longest, sorted⟩ := List.pairwise_cons.mp longestFirst
    by_cases found : startsWith fold text first = true
    · refine ⟨first.length, by rw [firstMatch, List.find?_cons_of_pos found]; rfl, ?_⟩
      obtain rfl | later := List.mem_cons.mp mem
      · exact Nat.le_refl _
      · exact longest needle later
    · obtain rfl | later := List.mem_cons.mp mem
      · exact absurd here found
      · rw [firstMatch, List.find?_cons_of_neg found]
        exact ih sorted later

/-- Where the pieces start with characters, so does the text. -/
theorem prefix_of_piecesFrom {text m : List α} {b : List (Option α)}
    (h : piecesFrom fold needles 0 text = m.map some ++ b) : m <+: text := by
  induction text generalizing m with
  | nil =>
    cases m with
    | nil => exact List.nil_prefix
    | cons d m =>
      simp only [piecesFrom] at h
      split at h <;> simp at h
  | cons c rest ih =>
    cases m with
    | nil => exact List.nil_prefix
    | cons d m =>
      simp only [piecesFrom] at h
      split at h
      · simp only [List.map_cons, List.cons_append, List.cons.injEq, Option.some.injEq] at h
        obtain ⟨rfl, h⟩ := h
        exact List.cons_prefix_cons.mpr ⟨rfl, ih h⟩
      · simp at h
      · simp at h

/-- No needle but the empty one was found at a character that is kept. -/
theorem firstMatch_of_kept {text : List α} {skip : Nat} {a p : List (Option α)} {c : α}
    (h : piecesFrom fold needles skip text = a ++ some c :: p) :
    ∃ rest, piecesFrom fold needles 0 rest = p ∧
      ∀ n, firstMatch fold needles (c :: rest) = some n → n = 0 := by
  induction text generalizing skip a with
  | nil =>
    simp only [piecesFrom] at h
    split at h
    · cases a with
      | nil => simp at h
      | cons piece a => simp at h
    · simp at h
  | cons d rest ih =>
    cases skip with
    | succ skip => exact ih h
    | zero =>
      simp only [piecesFrom] at h
      split at h
      · next nothing =>
        cases a with
        | nil =>
          simp only [List.nil_append, List.cons.injEq, Option.some.injEq] at h
          obtain ⟨rfl, rfl⟩ := h
          exact ⟨rest, rfl, fun n found => by simp [nothing] at found⟩
        | cons piece a =>
          simp only [List.cons_append, List.cons.injEq] at h
          exact ih h.2
      · next zero =>
        cases a with
        | nil => simp at h
        | cons piece a =>
          simp only [List.cons_append, List.cons.injEq] at h
          cases a with
          | nil =>
            simp only [List.nil_append, List.cons.injEq, Option.some.injEq] at h
            obtain ⟨-, rfl, rfl⟩ := h
            exact ⟨rest, rfl, fun n found => by simpa [zero] using found.symm⟩
          | cons piece' a =>
            simp only [List.cons_append, List.cons.injEq] at h
            exact ih h.2.2
      · cases a with
        | nil => simp at h
        | cons piece a =>
          simp only [List.cons_append, List.cons.injEq] at h
          exact ih h.2

/-- Between two finds stands no needle. -/
theorem not_stands_pieces (longestFirst : needles.Pairwise fun a b => b.length ≤ a.length)
    {needle text : List α} (mem : needle ∈ needles) (nonempty : needle ≠ []) :
    ¬Stands fold needle (pieces fold needles text) := by
  rintro ⟨a, b, m, h, hm⟩
  cases m with
  | nil =>
    have := congrArg List.length hm
    simp only [List.map_nil, List.length_nil, List.length_map] at this
    exact nonempty (List.length_eq_zero_iff.mp this.symm)
  | cons c m =>
    rw [List.map_cons, List.append_assoc, List.cons_append] at h
    obtain ⟨rest, kept, nothing⟩ := firstMatch_of_kept h
    obtain ⟨y, rfl⟩ := prefix_of_piecesFrom kept
    have here : startsWith fold (c :: (m ++ y)) needle = true :=
      startsWith_iff.mpr ⟨c :: m, y, rfl, hm⟩
    obtain ⟨n, found, long⟩ := firstMatch_of_startsWith longestFirst mem here
    have := nothing n found
    have := List.length_pos_iff.mpr nonempty
    omega

theorem pieces_of_not_mentions {text : List α} (absent : ¬Mentions fold needles text) :
    pieces fold needles text = text.map some := by
  have none_empty : [] ∉ needles := fun mem => absent ⟨[], mem, List.nil_infix⟩
  suffices ∀ rest, rest <:+ text → piecesFrom fold needles 0 rest = rest.map some from
    this text (List.suffix_refl text)
  intro rest behind
  induction rest with
  | nil => simp only [piecesFrom, none_empty, if_false, List.map_nil]
  | cons c rest ih =>
    have nothing : firstMatch fold needles (c :: rest) = none := by
      rw [firstMatch, Option.map_eq_none_iff, List.find?_eq_none]
      intro needle mem here
      obtain ⟨m, y, split, hm⟩ := startsWith_iff.mp here
      obtain ⟨x, rfl⟩ := behind
      exact absent ⟨needle, mem, occurs_iff.mpr ⟨x, m, y, by rw [split, List.append_assoc], hm⟩⟩
    rw [piecesFrom, nothing, List.map_cons]
    exact congrArg (some c :: ·) (ih ((List.suffix_cons c rest).trans behind))

/-- A text without a mention stays as it is. -/
theorem sub_of_not_mentions {placeholder text : List α} (absent : ¬Mentions fold needles text) :
    sub fold needles placeholder text = text := by
  rw [sub, pieces_of_not_mentions absent, reading_map_some]

theorem none_mem_piecesFrom (empty : [] ∈ needles) (skip : Nat) (text : List α) :
    ∃ a, piecesFrom fold needles skip text = a ++ [none] := by
  induction text generalizing skip with
  | nil => exact ⟨[], by simp [piecesFrom, empty]⟩
  | cons c rest ih =>
    cases skip with
    | succ skip => exact ih skip
    | zero =>
      simp only [piecesFrom]
      split
      · obtain ⟨a, ha⟩ := ih 0
        exact ⟨some c :: a, by rw [ha]; rfl⟩
      · obtain ⟨a, ha⟩ := ih 0
        exact ⟨none :: some c :: a, by rw [ha]; rfl⟩
      · next n _ =>
        obtain ⟨a, ha⟩ := ih n
        exact ⟨none :: a, by rw [ha]; rfl⟩

/-- What the scan leaves of a needle is spelled with a placeholder. -/
theorem occurs_sub_iff (longestFirst : needles.Pairwise fun a b => b.length ≤ a.length)
    {placeholder needle text : List α} (long : 2 ≤ placeholder.length) (mem : needle ∈ needles) :
    Occurs fold needle (sub fold needles placeholder text) ↔
      Completed fold placeholder needle (pieces fold needles text) := by
  have nonempty : placeholder ≠ [] := List.length_pos_iff.mp (by omega)
  rw [sub, occurs_reading_iff nonempty]
  by_cases empty : needle = []
  · subst empty
    obtain ⟨a, ha⟩ : ∃ a, pieces fold needles text = a ++ [none] := none_mem_piecesFrom mem 0 text
    refine iff_of_true (.inl ⟨[], _, [], rfl, rfl⟩) ?_
    obtain ⟨c, rest, rfl⟩ := List.exists_cons_of_ne_nil nonempty
    refine ⟨a, [], reading (c :: rest) a ++ [c], [], rest, ha, ?_, rfl, ?_, ?_⟩
    · rw [ha]
      simp
    · simp only [List.length_append, List.length_cons, List.length_nil] at long ⊢
      omega
    · simp
  · exact or_iff_right (not_stands_pieces longestFirst mem empty)

end

end Substitution
