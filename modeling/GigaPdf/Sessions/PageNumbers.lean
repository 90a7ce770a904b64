import Mathlib.Algebra.Order.Ring.Int
import Mathlib.Data.List.Dedup
import Mathlib.Data.List.Sort
import GigaPdf.Lib.Text
import GigaPdf.Lib.Traversal

/-!
# Page numbers

`parse_page_range` of `helpers.py`, which reads a list of pages and ranges with Python's `int`. The
bounds of a range are checked as they are written, and only then put in their order.
-/

namespace GigaPdf.PageNumbers

open Traversal

/-! ## Integers in texts -/

/-- The zeros of the decimal digits of Unicode; the other nine follow each of them. -/
def decimalZeros : List Nat :=
  [0x0030, 0x0660, 0x06F0, 0x07C0, 0x0966, 0x09E6, 0x0A66, 0x0AE6, 0x0B66, 0x0BE6, 0x0C66, 0x0CE6,
    0x0D66, 0x0DE6, 0x0E50, 0x0ED0, 0x0F20, 0x1040, 0x1090, 0x17E0, 0x1810, 0x1946, 0x19D0, 0x1A80,
    0x1A90, 0x1B50, 0x1BB0, 0x1C40, 0x1C50, 0xA620, 0xA8D0, 0xA900, 0xA9D0, 0xA9F0, 0xAA50, 0xABF0,
    0xFF10, 0x104A0, 0x10D30, 0x11066, 0x110F0, 0x11136, 0x111D0, 0x112F0, 0x11450, 0x114D0,
    0x11650, 0x116C0, 0x11730, 0x118E0, 0x11950, 0x11C50, 0x11D50, 0x11DA0, 0x11F50, 0x16A60,
    0x16AC0, 0x16B50, 0x1D7CE, 0x1D7D8, 0x1D7E2, 0x1D7EC, 0x1D7F6, 0x1E140, 0x1E2F0, 0x1E4F0,
    0x1E950, 0x1FBF0]

def decimalValue (c : Char) : Option Nat :=
  (decimalZeros.find? fun z => z ≤ c.toNat && c.toNat < z + 10).map (c.toNat - ·)

/-- What `int` skips around a number; the separators 0x1C to 0x1F are not among it. -/
def intSpace (c : Char) : Bool := Text.isSpace c && !(0x1C ≤ c.toNat && c.toNat ≤ 0x1F)

/-- How `int` refuses a text. -/
inductive IntError
  | invalidLiteral
  | digitLimit (digits : Nat)
deriving DecidableEq

def maxStrDigits : Nat := 4300

/-- A single underscore may stand between two digits. -/
def Grouped (run : List Char) : Prop := [] ∉ run.splitOn '_'

instance (run : List Char) : Decidable (Grouped run) := by
  unfold Grouped
  infer_instance

/-- The digits of a number, and what is behind them. -/
def digitsValue (text : List Char) : Except IntError Nat :=
  let run := text.takeWhile fun c => (decimalValue c).isSome || c = '_'
  let digits := run.filterMap decimalValue
  if ¬Grouped run then .error .invalidLiteral
  else if maxStrDigits < digits.length then .error (.digitLimit digits.length)
  else if (text.drop run.length).all intSpace then
    .ok (digits.foldl (fun n digit => 10 * n + digit) 0)
  else .error .invalidLiteral

/-- `int(text)` -/
def readInt (text : List Char) : Except IntError Int :=
  match text.dropWhile intSpace with
  | '-' :: rest => (digitsValue rest).map fun n => -(n : Int)
  | '+' :: rest => (digitsValue rest).map Int.ofNat
  | rest => (digitsValue rest).map Int.ofNat

/-! ## The parser -/

structure ValueError where
  message : List Char
deriving DecidableEq

def outOfBounds (what part : List Char) (maxPages : Nat) : ValueError where
  message := what ++ part ++ " out of bounds (1-".toList ++ Text.decimal maxPages ++ [')']

/-- The texts on both sides of the first dash. -/
def splitDash (part : List Char) : List Char × List Char :=
  (part.takeWhile (· ≠ '-'), (part.dropWhile (· ≠ '-')).tail)

/-- `range(start, stop + 1)` -/
def pagesBetween (start stop : Int) : List Int :=
  (List.range (stop + 1 - start).toNat).map fun (i : Nat) => start + i

/-- The bounds of a range as they are written. -/
def readBounds (part : List Char) : Except IntError (Int × Int) := do
  let start ← readInt (Text.strip (splitDash part).1)
  let stop ← readInt (Text.strip (splitDash part).2)
  return (start, stop)

/-- The pages that one part adds to the set. -/
def parsePart (maxPages : Nat) (part : List Char) : Except ValueError (List Int) :=
  if '-' ∈ part then
    match readBounds part with
    | .error .invalidLiteral => .error ⟨"Invalid page range format: ".toList ++ part⟩
    | .error (.digitLimit digits) =>
      .error ⟨"Exceeds the limit (4300 digits) for integer string conversion: value has ".toList ++
        Text.decimal digits ++
        " digits; use sys.set_int_max_str_digits() to increase the limit".toList⟩
    | .ok (start, stop) =>
      if start < 1 ∨ maxPages < stop then .error (outOfBounds "Page range ".toList part maxPages)
      else if stop < start then .ok (pagesBetween stop start)
      else .ok (pagesBetween start stop)
  else
    -- The error about the bounds is caught here as well.
    match readInt part with
    | .error _ => .error ⟨"Invalid page number: ".toList ++ part⟩
    | .ok page =>
      if page < 1 ∨ maxPages < page then .error ⟨"Invalid page number: ".toList ++ part⟩
      else .ok [page]

/-- The parts between the commas that are not blank. -/
def parts (pageRange : List Char) : List (List Char) :=
  ((pageRange.splitOn ',').map Text.strip).filter fun part => part ≠ []

/-- `sorted` of a set -/
def sorted (pages : List Int) : List Int := pages.dedup.insertionSort (· ≤ ·)

def parsePageRange (pageRange : List Char) (maxPages : Nat) : Except ValueError (List Int) :=
  ((parts pageRange).mapM (parsePart maxPages)).map fun pages => sorted pages.flatten

/-! ## What the parts name -/

/-- The part is a page, or two pages with a dash between them, and names the pages from `first` to
`last`. -/
def Names (part : List Char) (first last : Int) : Prop :=
  if '-' ∈ part then
    ∃ start stop, readBounds part = .ok (start, stop) ∧
      first = min start stop ∧ last = max start stop
  else readInt part = .ok first ∧ last = first

/-- The pages are those that the parts name, all of them in the document. -/
structure Reads (pageRange : List Char) (maxPages : Nat) (pages : List Int) : Prop where
  increasing : pages.Pairwise (· < ·)
  inside : ∀ page ∈ pages, 1 ≤ page ∧ page ≤ maxPages
  each : ∀ part ∈ parts pageRange, ∃ first last, Names part first last ∧
    1 ≤ first ∧ last ≤ maxPages
  named : ∀ page, page ∈ pages ↔ ∃ part ∈ parts pageRange, ∃ first last, Names part first last ∧
    first ≤ page ∧ page ≤ last

/-- The text is refused, or read as the pages that it names. -/
def Checked (pageRange : List Char) (maxPages : Nat) : Prop :=
  match parsePageRange pageRange maxPages with
  | .error _ => True
  | .ok pages => Reads pageRange maxPages pages

/-- A part in which a number is missing, or a written bound is refused. -/
def Refused (maxPages : Nat) (part : List Char) : Prop :=
  if '-' ∈ part then
    ∀ start stop, readBounds part = .ok (start, stop) → start < 1 ∨ maxPages < stop
  else ∀ page, readInt part = .ok page → page < 1 ∨ maxPages < page

/-- A range that is written from its end to its start, and reaches out of the document. -/
def Escapes (maxPages : Nat) (part : List Char) : Prop :=
  '-' ∈ part ∧ ∃ start stop, readBounds part = .ok (start, stop) ∧
    stop < start ∧ (stop < 1 ∨ maxPages < start)

theorem mem_pagesBetween {start stop page : Int} :
    page ∈ pagesBetween start stop ↔ start ≤ page ∧ page ≤ stop := by
  simp only [pagesBetween, List.mem_map, List.mem_range]
  constructor
  · rintro ⟨i, below, rfl⟩
    omega
  · rintro ⟨low, high⟩
    exact ⟨(page - start).toNat, by omega, by omega⟩

theorem mem_sorted {pages : List Int} {page : Int} : page ∈ sorted pages ↔ page ∈ pages := by
  rw [sorted, List.mem_insertionSort, List.mem_dedup]

theorem sorted_increasing (pages : List Int) : (sorted pages).Pairwise (· < ·) := by
  have order := List.pairwise_insertionSort (· ≤ ·) pages.dedup
  have distinct : (sorted pages).Nodup :=
    (List.perm_insertionSort (· ≤ ·) pages.dedup).nodup_iff.mpr pages.nodup_dedup
  exact (order.and distinct).imp fun both => lt_of_le_of_ne both.1 both.2

theorem Names.unique {part : List Char} {first last first' last' : Int}
    (names : Names part first last) (names' : Names part first' last') :
    first' = first ∧ last' = last := by
  unfold Names at names names'
  split at names
  · rename_i dashed
    rw [if_pos dashed] at names'
    obtain ⟨start, stop, read, rfl, rfl⟩ := names
    obtain ⟨start', stop', read', rfl, rfl⟩ := names'
    rw [read] at read'
    cases read'
    exact ⟨rfl, rfl⟩
  · rename_i undashed
    rw [if_neg undashed] at names'
    obtain ⟨read, rfl⟩ := names
    obtain ⟨read', rfl⟩ := names'
    rw [read] at read'
    cases read'
    exact ⟨rfl, rfl⟩

/-! ## Parts -/

/-- A part that is not refused adds the pages that it names. -/
theorem parsePart_eq_ok {maxPages : Nat} {part : List Char} {pages : List Int}
    (parsed : parsePart maxPages part = .ok pages) :
    ∃ first last, Names part first last ∧ ∀ page, page ∈ pages ↔ first ≤ page ∧ page ≤ last := by
  unfold parsePart at parsed
  split at parsed
  · rename_i dashed
    split at parsed
    · cases parsed
    · cases parsed
    · rename_i start stop read
      refine ⟨min start stop, max start stop, ?_, fun page => ?_⟩
      · rw [Names, if_pos dashed]
        exact ⟨start, stop, read, rfl, rfl⟩
      · split at parsed
        · cases parsed
        · split at parsed
          · rename_i reversed
            cases parsed
            rw [mem_pagesBetween, min_eq_right reversed.le, max_eq_left reversed.le]
          · rename_i ordered
            cases parsed
            rw [mem_pagesBetween, min_eq_left (not_lt.mp ordered), max_eq_right (not_lt.mp ordered)]
  · rename_i undashed
    split at parsed
    · cases parsed
    · rename_i page read
      split at parsed
      · cases parsed
      · cases parsed
        refine ⟨page, page, ?_, fun other => ?_⟩
        · rw [Names, if_neg undashed]
          exact ⟨read, rfl⟩
        · rw [List.mem_singleton, le_antisymm_iff, and_comm]

theorem not_refused_iff {maxPages : Nat} {part : List Char} :
    ¬Refused maxPages part ↔ ∃ pages, parsePart maxPages part = .ok pages := by
  unfold Refused parsePart
  split
  · cases read : readBounds part with
    | error e =>
      refine iff_of_false (fun accepted => accepted nofun) ?_
      rintro ⟨pages, parsed⟩
      cases e <;> cases parsed
    | ok bounds =>
      obtain ⟨start, stop⟩ := bounds
      dsimp only
      by_cases out : start < 1 ∨ maxPages < stop
      · rw [if_pos out]
        refine iff_of_false (fun accepted => accepted ?_) nofun
        intro start' stop' same
        cases same
        exact out
      · rw [if_neg out]
        refine iff_of_true (fun refused => out (refused start stop rfl)) ?_
        split <;> exact ⟨_, rfl⟩
  · cases read : readInt part with
    | error e => exact iff_of_false (fun accepted => accepted nofun) nofun
    | ok page =>
      dsimp only
      by_cases out : page < 1 ∨ maxPages < page
      · rw [if_pos out]
        refine iff_of_false (fun accepted => accepted ?_) nofun
        intro page' same
        cases same
        exact out
      · rw [if_neg out]
        exact iff_of_true (fun refused => out (refused page rfl)) ⟨_, rfl⟩

/-- A part that is not refused names pages of the document, unless it escapes. -/
theorem names_inside {maxPages : Nat} {part : List Char} (accepted : ¬Refused maxPages part) :
    (∃ first last, Names part first last ∧ 1 ≤ first ∧ last ≤ maxPages) ↔
      ¬Escapes maxPages part := by
  unfold Refused at accepted
  unfold Names Escapes
  split at accepted
  · rename_i dashed
    push Not at accepted
    obtain ⟨start, stop, read, low, high⟩ := accepted
    simp only [dashed, true_and, read, Except.ok.injEq, Prod.mk.injEq]
    constructor
    · rintro ⟨_, _, ⟨_, _, ⟨rfl, rfl⟩, rfl, rfl⟩, first, last⟩ ⟨_, _, ⟨rfl, rfl⟩, reversed, out⟩
      omega
    · intro inside
      refine ⟨_, _, ⟨start, stop, ⟨rfl, rfl⟩, rfl, rfl⟩, ?_⟩
      by_cases reversed : stop < start
      · have : ¬(stop < 1 ∨ maxPages < start) :=
          fun out => inside ⟨start, stop, ⟨rfl, rfl⟩, reversed, out⟩
        omega
      · omega
  · rename_i undashed
    push Not at accepted
    obtain ⟨page, read, low, high⟩ := accepted
    simp only [undashed, false_and, not_false_iff, iff_true]
    exact ⟨page, page, ⟨read, rfl⟩, low, high⟩

/-! ## The whole text -/

theorem parsePageRange_eq_ok_iff {pageRange : List Char} {maxPages : Nat} {pages : List Int} :
    parsePageRange pageRange maxPages = .ok pages ↔
      ∃ added, List.Forall₂ (fun part pages => parsePart maxPages part = .ok pages)
        (parts pageRange) added ∧ sorted added.flatten = pages := by
  simp only [parsePageRange, ← mapM_eq_ok_iff]
  cases (parts pageRange).mapM (parsePart maxPages) with
  | error e => exact iff_of_false nofun nofun
  | ok added => simp only [Except.map, Except.ok.injEq, exists_eq_left']

theorem exists_parsed_iff {pageRange : List Char} {maxPages : Nat} :
    (∃ pages, parsePageRange pageRange maxPages = .ok pages) ↔
      ∀ part ∈ parts pageRange, ¬Refused maxPages part := by
  simp only [not_refused_iff, ← exists_mapM_eq_ok_iff, parsePageRange_eq_ok_iff, mapM_eq_ok_iff]
  constructor
  · rintro ⟨_, added, ran, rfl⟩
    exact ⟨added, ran⟩
  · rintro ⟨added, ran⟩
    exact ⟨_, added, ran, rfl⟩

/-- The pages that are read are in their order, and those that the parts name. -/
theorem parsePageRange_named {pageRange : List Char} {maxPages : Nat} {pages : List Int}
    (parsed : parsePageRange pageRange maxPages = .ok pages) :
    pages.Pairwise (· < ·) ∧ ∀ page, page ∈ pages ↔
      ∃ part ∈ parts pageRange, ∃ first last, Names part first last ∧
        first ≤ page ∧ page ≤ last := by
  obtain ⟨added, ran, rfl⟩ := parsePageRange_eq_ok_iff.mp parsed
  refine ⟨sorted_increasing _, fun page => ?_⟩
  rw [mem_sorted]
  apply mem_flatten_iff ran
  intro part pages here page
  obtain ⟨first, last, names, between⟩ := parsePart_eq_ok here
  rw [between]
  constructor
  · intro inside
    exact ⟨first, last, names, inside⟩
  · rintro ⟨first', last', names', inside⟩
    obtain ⟨rfl, rfl⟩ := names.unique names'
    exact inside

/-- The pages are checked exactly when a part is refused, or no part reaches out of the document
from its end to its start. -/
theorem parsePageRange_checked_iff (pageRange : List Char) (maxPages : Nat) :
    Checked pageRange maxPages ↔
      (∃ part ∈ parts pageRange, Refused maxPages part) ∨
        ∀ part ∈ parts pageRange, ¬Escapes maxPages part := by
  unfold Checked
  cases parsed : parsePageRange pageRange maxPages with
  | error e =>
    refine iff_of_true trivial (.inl ?_)
    by_contra none
    push Not at none
    obtain ⟨pages, read⟩ := exists_parsed_iff.mpr none
    rw [parsed] at read
    cases read
  | ok pages =>
    have accepted := exists_parsed_iff.mp ⟨pages, parsed⟩
    obtain ⟨increasing, named⟩ := parsePageRange_named parsed
    constructor
    · intro reads
      exact .inr fun part mem => (names_inside (accepted part mem)).mp (reads.each part mem)
    · rintro (⟨part, mem, refused⟩ | inside)
      · exact absurd refused (accepted part mem)
      · have each (part : List Char) (mem : part ∈ parts pageRange) :=
          (names_inside (accepted part mem)).mpr (inside part mem)
        refine ⟨increasing, fun page mem => ?_, each, named⟩
        obtain ⟨part, mem, first, last, names, low, high⟩ := (named page).mp mem
        obtain ⟨first', last', names', low', high'⟩ := each part mem
        obtain ⟨rfl, rfl⟩ := names.unique names'
        exact ⟨low'.trans low, high.trans high'⟩

example : parsePageRange "7, 9-11,3 - 1".toList 12 = .ok [1, 2, 3, 7, 9, 10, 11] := by
  decide

/-- The range from 12 down to 3 is read in a document of 10 pages. -/
theorem parsePageRange_reversed : ¬∀ (pageRange : List Char) (maxPages : Nat),
    Checked pageRange maxPages := by
  intro checked
  have reads := checked "12-3".toList 10
  rw [Checked, show parsePageRange "12-3".toList 10 =
    .ok [3, 4, 5, 6, 7, 8, 9, 10, 11, 12] by decide] at reads
  exact absurd (reads.inside 12 (by decide)).2 (by decide)

end GigaPdf.PageNumbers
