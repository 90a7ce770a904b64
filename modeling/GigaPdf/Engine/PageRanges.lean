import GigaPdf.Editor.ParagraphSession
import GigaPdf.Lib.Scanning
import GigaPdf.Lib.Traversal

/-!
# Page ranges

`parsePageRange` of `page-range.ts` splits a text at its commas, and an item with a dash at its
dashes, and reads the pieces with `parseInt`, which ignores whatever follows a number.
-/

namespace GigaPdf

open Scanning Traversal
open ParagraphSession (CodeUnit codeUnits isWhitespace)

/-- The pages from `start` to `stop`, both included. -/
structure PageRange where
  start : Int
  stop : Int
deriving DecidableEq

def comma : CodeUnit := 0x2C

def dash : CodeUnit := 0x2D

def plus : CodeUnit := 0x2B

def isBlank (c : CodeUnit) : Bool := isWhitespace c.toNat

def isDigit (c : CodeUnit) : Bool := 0x30 ≤ c.toNat && c.toNat ≤ 0x39

def digitValue (c : CodeUnit) : Nat := c.toNat - 0x30

/-- `parseInt(s, 10)` on code units -/
def parseInt (s : List CodeUnit) : Option Int :=
  match s.dropWhile isBlank with
  | [] => none
  | c :: rest =>
    if c = dash then (leadingNumber isDigit digitValue rest).map fun n => -(n : Int)
    else if c = plus then (leadingNumber isDigit digitValue rest).map fun n => (n : Int)
    else (leadingNumber isDigit digitValue (c :: rest)).map fun n => (n : Int)

/-- `Error` with its message. -/
structure RangeError where
  message : List CodeUnit
deriving DecidableEq

def rangeError (kind : String) (part : List CodeUnit) (pageCount : Nat) : RangeError where
  message := codeUnits ("Invalid page " ++ kind ++ ": \"") ++ part ++
    codeUnits ("\" (document has " ++ toString pageCount ++ " pages)")

/-- One pass of the loop over the parts. -/
def parsePart (pageCount : Nat) (part : List CodeUnit) : Except RangeError PageRange :=
  if dash ∈ part then
    let pieces := part.splitOn dash
    match pieces[0]?.bind parseInt, pieces[1]?.bind parseInt with
    | some start, some stop =>
      if start < 1 ∨ stop < start ∨ pageCount < stop then
        .error (rangeError "range" part pageCount)
      else .ok ⟨start, stop⟩
    | _, _ => .error (rangeError "range" part pageCount)
  else
    match parseInt part with
    | some page =>
      if page < 1 ∨ pageCount < page then .error (rangeError "number" part pageCount)
      else .ok ⟨page, page⟩
    | none => .error (rangeError "number" part pageCount)

def parsePageRange (rangeStr : List CodeUnit) (pageCount : Nat) :
    Except RangeError (List PageRange) :=
  ((rangeStr.splitOn comma).map (trim isBlank)).mapM (parsePart pageCount)

/-! ## The grammar -/

/-- A decimal integer, with optional blanks around it. -/
def Number (s : List CodeUnit) (n : Nat) : Prop :=
  ∃ d, Numeral isDigit d ∧ Padded isBlank d s ∧ value digitValue d = n

/-- An item of the list: a page, or two pages with a dash between them. -/
inductive Item (pageCount : Nat) : List CodeUnit → PageRange → Prop
  | page {s p} : Number s p → 1 ≤ p → p ≤ pageCount → Item pageCount s ⟨p, p⟩
  | range {l r a b} : Number l a → Number r b → 1 ≤ a → a ≤ b → b ≤ pageCount →
      Item pageCount (l ++ dash :: r) ⟨a, b⟩

/-- A list of items with commas between them, and the ranges it stands for. -/
def Grammar (pageCount : Nat) (s : List CodeUnit) (ranges : List PageRange) : Prop :=
  ∃ items, items ≠ [] ∧ s = [comma].intercalate items ∧
    List.Forall₂ (Item pageCount) items ranges

/-! ## Reading a number -/

theorem not_blank_of_digit {c : CodeUnit} (digit : isDigit c = true) : isBlank c = false := by
  simp only [isDigit, Bool.and_eq_true, decide_eq_true_eq] at digit
  simp only [isBlank, isWhitespace, Bool.or_eq_false_iff, Bool.and_eq_false_iff,
    decide_eq_false_iff_not]
  omega

theorem not_digit_of_blank {c : CodeUnit} (blank : isBlank c = true) : isDigit c = false := by
  cases digit : isDigit c with
  | false => rfl
  | true => rw [not_blank_of_digit digit] at blank; cases blank

theorem Number.not_mem {s : List CodeUnit} {n : Nat} (number : Number s n) {c : CodeUnit}
    (other : isDigit c = false) (dark : isBlank c = false) : c ∉ s := by
  obtain ⟨d, numeral, ⟨b, b', blanks, blanks', rfl⟩, -⟩ := number
  intro mem
  simp only [List.mem_append] at mem
  obtain (mem | mem) | mem := mem
  · rw [blanks c mem] at dark; cases dark
  · rw [numeral.2 c mem] at other; cases other
  · rw [blanks' c mem] at dark; cases dark

theorem Number.parseInt {s : List CodeUnit} {n : Nat} (number : Number s n) :
    parseInt s = some (n : Int) := by
  obtain ⟨d, numeral, ⟨b, b', blanks, blanks', rfl⟩, rfl⟩ := number
  obtain ⟨c, d, rfl⟩ := List.exists_cons_of_ne_nil numeral.1
  have digit := numeral.2 c List.mem_cons_self
  have first : c ≠ dash ∧ c ≠ plus := by
    constructor <;> rintro rfl <;> revert digit <;> decide
  have dark : ¬isBlank c = true := by rw [not_blank_of_digit digit]; exact Bool.false_ne_true
  have read := @leadingNumber_numeral _ isDigit digitValue _ b' numeral fun c mem =>
    not_digit_of_blank (blanks' c mem)
  rw [GigaPdf.parseInt, List.append_assoc, dropWhile_blanks blanks, List.cons_append,
    List.dropWhile_cons_of_neg dark]
  simp only [if_neg first.1, if_neg first.2]
  rw [← List.cons_append, read]
  rfl

theorem Number.dropWhile {s : List CodeUnit} {n : Nat} (number : Number s n) :
    Number (s.dropWhile isBlank) n := by
  obtain ⟨d, numeral, padded, rfl⟩ := number
  obtain ⟨c, d, rfl⟩ := List.exists_cons_of_ne_nil numeral.1
  have dark := not_blank_of_digit (numeral.2 c List.mem_cons_self)
  exact ⟨c :: d, numeral, padded.dropWhile dark, rfl⟩

theorem Number.trimEnd {s : List CodeUnit} {n : Nat} (number : Number s n) :
    Number (trimEnd isBlank s) n := by
  obtain ⟨d, numeral, padded, rfl⟩ := number
  obtain ⟨d, c, rfl⟩ := (List.eq_nil_or_concat' d).resolve_left numeral.1
  have dark := not_blank_of_digit (numeral.2 c (by simp))
  exact ⟨d ++ [c], numeral, padded.trimEnd dark, rfl⟩

/-! ## Items -/

theorem dash_dark : isDigit dash = false ∧ isBlank dash = false := by decide

theorem comma_dark : isDigit comma = false ∧ isBlank comma = false := by decide

theorem parsePart_number {s : List CodeUnit} {p : Nat} (number : Number s p) (pageCount : Nat) :
    parsePart pageCount (trim isBlank s) =
      if (p : Int) < 1 ∨ (pageCount : Int) < p then
        .error (rangeError "number" (trim isBlank s) pageCount)
      else .ok ⟨p, p⟩ := by
  have trimmed : Number (trim isBlank s) p := number.dropWhile.trimEnd
  have undashed := trimmed.not_mem dash_dark.1 dash_dark.2
  rw [parsePart, if_neg undashed, trimmed.parseInt]

theorem parsePart_range {l r : List CodeUnit} {a b : Nat} (left : Number l a) (right : Number r b)
    (pageCount : Nat) :
    parsePart pageCount (trim isBlank (l ++ dash :: r)) =
      if (a : Int) < 1 ∨ (b : Int) < a ∨ (pageCount : Int) < b then
        .error (rangeError "range" (trim isBlank (l ++ dash :: r)) pageCount)
      else .ok ⟨a, b⟩ := by
  have cut := trim_append_cons dash_dark.2 l r
  have undashed := left.dropWhile.not_mem dash_dark.1 dash_dark.2
  have undashed' := right.trimEnd.not_mem dash_dark.1 dash_dark.2
  have dashed : dash ∈ trim isBlank (l ++ dash :: r) := by
    rw [cut]
    exact List.mem_append_right _ List.mem_cons_self
  have pieces : (trim isBlank (l ++ dash :: r)).splitOn dash =
      [l.dropWhile isBlank, trimEnd isBlank r] := by
    rw [cut, List.splitOn_append_cons_self_of_not_mem undashed, List.splitOn_eq_singleton undashed']
  rw [parsePart, if_pos dashed, pieces]
  simp only [List.getElem?_cons_zero, List.getElem?_cons_succ, Option.bind_some,
    left.dropWhile.parseInt, right.trimEnd.parseInt]

/-- Nothing but blanks stands around the numbers: no sign, no other character, no second dash. -/
def Plain (item : List CodeUnit) : Prop :=
  (∃ p, Number item p) ∨ ∃ l r a b, item = l ++ dash :: r ∧ Number l a ∧ Number r b

theorem Item.plain {pageCount : Nat} {item : List CodeUnit} {range : PageRange}
    (derived : Item pageCount item range) : Plain item := by
  cases derived with
  | page number => exact .inl ⟨_, number⟩
  | range left right => exact .inr ⟨_, _, _, _, rfl, left, right⟩

theorem Plain.not_mem {item : List CodeUnit} (plain : Plain item) {c : CodeUnit}
    (other : isDigit c = false) (dark : isBlank c = false) (apart : c ≠ dash) : c ∉ item := by
  obtain ⟨p, number⟩ | ⟨l, r, a, b, rfl, left, right⟩ := plain
  · exact number.not_mem other dark
  · simp [left.not_mem other dark, right.not_mem other dark, apart]

theorem item_iff {pageCount : Nat} {item : List CodeUnit} {range : PageRange} :
    Item pageCount item range ↔
      Plain item ∧ parsePart pageCount (trim isBlank item) = .ok range := by
  constructor
  · intro derived
    refine ⟨derived.plain, ?_⟩
    cases derived with
    | page number low high => rw [parsePart_number number, if_neg (by omega)]
    | range left right low ordered high => rw [parsePart_range left right, if_neg (by omega)]
  · rintro ⟨⟨p, number⟩ | ⟨l, r, a, b, rfl, left, right⟩, read⟩
    · rw [parsePart_number number] at read
      split at read
      · cases read
      · cases read
        exact .page number (by omega) (by omega)
    · rw [parsePart_range left right] at read
      split at read
      · cases read
      · cases read
        exact .range left right (by omega) (by omega) (by omega)

/-! ## Lists of items -/

theorem parsePageRange_eq_ok_iff {rangeStr : List CodeUnit} {pageCount : Nat}
    {ranges : List PageRange} :
    parsePageRange rangeStr pageCount = .ok ranges ↔
      List.Forall₂ (fun item range => parsePart pageCount (trim isBlank item) = .ok range)
        (rangeStr.splitOn comma) ranges := by
  rw [parsePageRange, mapM_eq_ok_iff, List.forall₂_map_left_iff]

theorem grammar_iff {rangeStr : List CodeUnit} {pageCount : Nat} {ranges : List PageRange} :
    Grammar pageCount rangeStr ranges ↔
      List.Forall₂ (Item pageCount) (rangeStr.splitOn comma) ranges := by
  constructor
  · rintro ⟨items, some', rfl, derived⟩
    rw [List.splitOn_intercalate comma _ some']
    · exact derived
    · exact forall_left derived fun _ _ derived =>
        derived.plain.not_mem comma_dark.1 comma_dark.2 (by decide)
  · intro derived
    exact ⟨rangeStr.splitOn comma, List.splitOn_ne_nil _ _, (List.intercalate_splitOn _).symm,
      derived⟩

/-- The number of the item, or one at the start of its first two parts, is missing or out of
bounds. -/
def Refused (pageCount : Nat) (item : List CodeUnit) : Prop :=
  let part := trim isBlank item
  if dash ∈ part then
    ∀ start ∈ (part.splitOn dash)[0]?.bind parseInt, ∀ stop ∈ (part.splitOn dash)[1]?.bind parseInt,
      start < 1 ∨ stop < start ∨ pageCount < stop
  else ∀ page ∈ parseInt part, page < 1 ∨ pageCount < page

theorem not_refused_iff {pageCount : Nat} {item : List CodeUnit} :
    ¬Refused pageCount item ↔ ∃ range, parsePart pageCount (trim isBlank item) = .ok range := by
  simp only [Refused, parsePart]
  split
  · cases ((trim isBlank item).splitOn dash)[0]?.bind parseInt with
    | none => simp
    | some start =>
      cases ((trim isBlank item).splitOn dash)[1]?.bind parseInt with
      | none => simp
      | some stop =>
        simp only [Option.mem_some_iff, forall_eq']
        split <;> simp [*]
  · cases parseInt (trim isBlank item) with
    | none => simp
    | some page =>
      simp only [Option.mem_some_iff, forall_eq']
      split <;> simp [*]

/-- The accepted texts and their ranges are those of the grammar exactly when an item is refused or
all items are plain: what follows a number is ignored. -/
theorem parsePageRange_grammar_iff (rangeStr : List CodeUnit) (pageCount : Nat) :
    (∀ ranges, parsePageRange rangeStr pageCount = .ok ranges ↔
        Grammar pageCount rangeStr ranges) ↔
      (∃ item ∈ rangeStr.splitOn comma, Refused pageCount item) ∨
        ∀ item ∈ rangeStr.splitOn comma, Plain item := by
  constructor
  · intro agree
    by_cases refused : ∃ item ∈ rangeStr.splitOn comma, Refused pageCount item
    · exact .inl refused
    · right
      have accepted : ∃ ranges, parsePageRange rangeStr pageCount = .ok ranges := by
        rw [parsePageRange, exists_mapM_eq_ok_iff, List.forall_mem_map]
        exact fun item mem => not_refused_iff.mp fun refuses => refused ⟨item, mem, refuses⟩
      obtain ⟨ranges, parsed⟩ := accepted
      have derived := (agree ranges).mp parsed
      exact forall_left (grammar_iff.mp derived) fun _ _ derived => derived.plain
  · intro sound ranges
    rw [parsePageRange_eq_ok_iff, grammar_iff]
    obtain ⟨item, mem, refuses⟩ | plain := sound
    · constructor
      · intro parsed
        exact absurd refuses (forall_left parsed
          (fun item range here => not_refused_iff.mpr ⟨range, here⟩) item mem)
      · intro derived
        exact absurd refuses (forall_left derived
          (fun item range here => not_refused_iff.mpr ⟨range, (item_iff.mp here).2⟩) item mem)
    · generalize rangeStr.splitOn comma = items at plain ⊢
      constructor
      · intro parsed
        induction parsed with
        | nil => exact .nil
        | cons here _ ih =>
          exact .cons (item_iff.mpr ⟨plain _ List.mem_cons_self, here⟩)
            (ih fun item mem => plain item (List.mem_cons_of_mem _ mem))
      · intro derived
        exact derived.imp fun _ _ here => (item_iff.mp here).2

example : parsePageRange (codeUnits "1-3, 5 ,7 - 9") 10 = .ok [⟨1, 3⟩, ⟨5, 5⟩, ⟨7, 9⟩] := by
  decide

/-- Letters behind a number are ignored. -/
theorem parsePageRange_letters :
    ¬∀ (rangeStr : List CodeUnit) (pageCount : Nat) (ranges : List PageRange),
      parsePageRange rangeStr pageCount = .ok ranges ↔ Grammar pageCount rangeStr ranges := by
  intro agree
  have derived := (agree (codeUnits "3abc") 10 [⟨3, 3⟩]).mp (by decide)
  have plain := forall_left (grammar_iff.mp derived) (fun _ _ derived => derived.plain)
    (codeUnits "3abc") (by decide)
  exact plain.not_mem (c := 0x61) (by decide) (by decide) (by decide) (by decide)

end GigaPdf
