import GigaPdf.Lib.Candidates
import GigaPdf.Lib.Text
import GigaPdf.Sessions.PageNumbers

/-!
# Copy names

`_next_copy_name` of `storage.py`: the name of a document with a suffix that counts its copies, cut
to the length of a name. The suffix stays whole, so the candidates of different counters differ.
-/

namespace GigaPdf.CopyNames

open Text Candidates PageNumbers

def MAX_DOCUMENT_NAME_LENGTH : Nat := 255

/-- A number with too many digits for `str`. -/
inductive StrError
  | digitLimit (digits : Nat)
deriving DecidableEq

def suffix (counter : Nat) : Except StrError (List Char) :=
  if counter = 1 then .ok " (copie)".toList
  else if maxStrDigits < (decimal counter).length then
    .error (.digitLimit (decimal counter).length)
  else .ok (" (copie ".toList ++ decimal counter ++ [')'])

def candidate (baseName : List Char) (counter : Nat) : Except StrError (List Char) :=
  (suffix counter).map fun suffix =>
    let maxBase : Int := MAX_DOCUMENT_NAME_LENGTH - suffix.length
    upTo baseName maxBase ++ suffix

/-- The `while` loop, for a number of rounds. -/
def nextCopyName (rounds : Nat) (baseName : List Char) (existingNames : Finset (List Char)) :
    Option (Except StrError (List Char)) :=
  search (candidate baseName) existingNames rounds 1

/-! ## Suffixes -/

/-- What is behind the last blank of a suffix. -/
def mark (counter : Nat) : List Char :=
  if counter = 1 then "(copie)".toList else decimal counter ++ [')']

theorem blank_not_mem_mark (counter : Nat) : ' ' ∉ mark counter := by
  rw [mark]
  split
  · decide
  · have digits := not_mem_decimal (c := ' ') rfl counter
    simp [digits]

theorem mark_inj {n m : Nat} (same : mark n = mark m) : n = m := by
  have bracket (k : Nat) : "(copie)".toList ≠ decimal k ++ [')'] := by
    intro eq
    have mem : '(' ∈ decimal k ++ [')'] := eq ▸ by decide
    simp [not_mem_decimal (c := '(') rfl k] at mem
  rw [mark, mark] at same
  split at same <;> split at same
  · omega
  · exact absurd same (bracket m)
  · exact absurd same.symm (bracket n)
  · exact decimal_inj (List.append_cancel_right same)

theorem suffix_cases {counter : Nat} {text : List Char} (eq : suffix counter = .ok text) :
    counter = 1 ∧ text = " (copie)".toList ∨
      counter ≠ 1 ∧ (decimal counter).length ≤ maxStrDigits ∧
        text = " (copie ".toList ++ decimal counter ++ [')'] := by
  rw [suffix] at eq
  split at eq
  · rename_i one
    exact .inl ⟨one, (Except.ok.inj eq).symm⟩
  · split at eq
    · cases eq
    · exact .inr ⟨by assumption, by omega, (Except.ok.inj eq).symm⟩

theorem suffix_eq_mark {counter : Nat} {text : List Char} (eq : suffix counter = .ok text) :
    ∃ start, text = start ++ ' ' :: mark counter := by
  obtain ⟨rfl, rfl⟩ | ⟨several, -, rfl⟩ := suffix_cases eq
  · exact ⟨[], rfl⟩
  · refine ⟨" (copie".toList, ?_⟩
    rw [mark, if_neg several]
    rfl

theorem suffix_ok {counter : Nat} (few : counter < 10 ^ maxStrDigits) :
    ∃ text, suffix counter = .ok text := by
  have digits := (length_decimal_le_iff (by decide)).mpr few
  rw [suffix]
  split
  · exact ⟨_, rfl⟩
  · rw [if_neg (by omega)]
    exact ⟨_, rfl⟩

/-- A suffix takes nine characters besides its digits. -/
theorem length_suffix_le_iff {counter : Nat} {text : List Char} (eq : suffix counter = .ok text) :
    text.length ≤ MAX_DOCUMENT_NAME_LENGTH ↔ counter < 10 ^ 246 := by
  rw [← length_decimal_le_iff (by omega)]
  obtain ⟨rfl, rfl⟩ | ⟨-, -, rfl⟩ := suffix_cases eq
  · exact ⟨fun _ => by decide, fun _ => by decide⟩
  · have opening : " (copie ".toList.length = 8 := rfl
    simp only [List.length_append, opening, List.length_singleton, MAX_DOCUMENT_NAME_LENGTH]
    omega

/-! ## Candidates -/

theorem candidate_eq_ok {baseName name : List Char} {counter : Nat}
    (eq : candidate baseName counter = .ok name) :
    ∃ start text, start <+: baseName ∧ suffix counter = .ok text ∧ name = start ++ text ∧
      (text.length ≤ MAX_DOCUMENT_NAME_LENGTH → name.length ≤ MAX_DOCUMENT_NAME_LENGTH) := by
  rw [candidate] at eq
  cases written : suffix counter with
  | error e =>
    rw [written] at eq
    cases eq
  | ok text =>
    rw [written] at eq
    obtain rfl := Except.ok.inj eq
    refine ⟨_, text, upTo_front _ _, rfl, rfl, fun short => ?_⟩
    rw [List.length_append, length_upTo _ (by omega)]
    omega

theorem candidate_ok (baseName : List Char) {counter : Nat} (few : counter < 10 ^ maxStrDigits) :
    ∃ name, candidate baseName counter = .ok name := by
  obtain ⟨text, eq⟩ := suffix_ok few
  rw [candidate, eq]
  exact ⟨_, rfl⟩

/-- The counter can be read off a candidate, wherever the name in front of it was cut. -/
theorem candidate_inj {baseName name : List Char} {n m : Nat}
    (eq : candidate baseName n = .ok name) (eq' : candidate baseName m = .ok name) : n = m := by
  obtain ⟨start, text, -, written, rfl, -⟩ := candidate_eq_ok eq
  obtain ⟨start', text', -, written', same, -⟩ := candidate_eq_ok eq'
  obtain ⟨front, rfl⟩ := suffix_eq_mark written
  obtain ⟨front', rfl⟩ := suffix_eq_mark written'
  rw [← List.append_assoc, ← List.append_assoc] at same
  exact mark_inj (split_last same (blank_not_mem_mark n) (blank_not_mem_mark m)).2

theorem length_candidate_le_iff {baseName name : List Char} {counter : Nat}
    (eq : candidate baseName counter = .ok name) :
    name.length ≤ MAX_DOCUMENT_NAME_LENGTH ↔ counter < 10 ^ 246 := by
  obtain ⟨start, text, -, written, rfl, short⟩ := candidate_eq_ok eq
  rw [← length_suffix_le_iff written]
  refine ⟨fun whole => ?_, short⟩
  rw [List.length_append] at whole
  omega

/-! ## The name of a copy -/

/-- The loop ends with `name`, which is not in use and is written with the first free counter. -/
structure Named (baseName : List Char) (existingNames : Finset (List Char)) (counter : Nat)
    (name : List Char) : Prop where
  returned : ∃ rounds, ∀ more, rounds ≤ more →
    nextCopyName more baseName existingNames = some (.ok name)
  first : FirstFree (candidate baseName) existingNames 1 counter name
  written : ∃ start text, start <+: baseName ∧ suffix counter = .ok text ∧ name = start ++ text

theorem Named.of_first {baseName name : List Char} {existingNames : Finset (List Char)}
    {counter : Nat} (first : FirstFree (candidate baseName) existingNames 1 counter name) :
    Named baseName existingNames counter name where
  returned := ⟨counter, fun _ enough => search_eq first (by omega)⟩
  first := first
  written := by
    obtain ⟨start, text, front, written, eq, -⟩ := candidate_eq_ok first.eq
    exact ⟨start, text, front, written, eq⟩

theorem nextCopyName_spec (baseName : List Char) (existingNames : Finset (List Char))
    (few : existingNames.card < 10 ^ maxStrDigits - 1) :
    ∃ counter name, Named baseName existingNames counter name ∧
      (name.length ≤ MAX_DOCUMENT_NAME_LENGTH ↔ counter < 10 ^ 246) ∧
      (existingNames.card < 10 ^ 246 - 1 → name.length ≤ MAX_DOCUMENT_NAME_LENGTH) := by
  have distinct (n m : Nat) (name : List Char) (eq : candidate baseName n = .ok name)
      (eq' : candidate baseName m = .ok name) : n = m := candidate_inj eq eq'
  obtain ⟨counter, name, -, first⟩ :=
    exists_firstFree (fun _ _ below => candidate_ok baseName below) distinct few
  have bounded := length_candidate_le_iff first.eq
  refine ⟨counter, name, .of_first first, bounded, fun fewer => bounded.mpr ?_⟩
  -- a free counter below the bound is not passed over
  obtain ⟨n, low, high, free⟩ := exists_not_taken distinct fewer
  by_contra late
  exact free (first.before n low (lt_of_lt_of_le high (Nat.le_of_not_lt late)))

theorem nextCopyName_spec_second :
    ({"a (copie)".toList} : Finset (List Char)).card < 10 ^ maxStrDigits - 1 ∧
      ∃ counter name, Named ['a'] {"a (copie)".toList} counter name ∧
        (name.length ≤ MAX_DOCUMENT_NAME_LENGTH ↔ counter < 10 ^ 246) ∧
        (({"a (copie)".toList} : Finset (List Char)).card < 10 ^ 246 - 1 →
          name.length ≤ MAX_DOCUMENT_NAME_LENGTH) := by
  have several : 10 ^ 1 ≤ 10 ^ maxStrDigits := Nat.pow_le_pow_right (by omega) (by decide)
  have few : ({"a (copie)".toList} : Finset (List Char)).card < 10 ^ maxStrDigits - 1 := by
    rw [Finset.card_singleton]
    omega
  exact ⟨few, nextCopyName_spec ['a'] {"a (copie)".toList} few⟩

/-- The copies of an empty name up to a counter. -/
def copiesBelow (stop : Nat) : Finset (List Char) :=
  ((List.range stop).filterMap fun n => (candidate [] n).toOption).toFinset

/-- With the suffixes of up to 246 digits in use, the next one alone is longer than a name. -/
theorem nextCopyName_too_long :
    ¬∃ counter name, Named [] (copiesBelow (10 ^ 246)) counter name ∧
      name.length ≤ MAX_DOCUMENT_NAME_LENGTH := by
  rintro ⟨counter, name, named, short⟩
  have below := (length_candidate_le_iff named.first.eq).mp short
  refine named.first.free (List.mem_toFinset.mpr (List.mem_filterMap.mpr ?_))
  exact ⟨counter, List.mem_range.mpr below, by rw [named.first.eq]; rfl⟩

end GigaPdf.CopyNames
