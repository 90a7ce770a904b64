import GigaPdf.Lib.Patterns
import Mathlib.Algebra.GroupWithZero.Nat

/-!
# Private addresses

`url-validation.ts` knows the addresses that no request may go to by patterns of their texts. The
ranges that it documents are ranges of numbers.
-/

namespace GigaPdf

open Patterns Text

/-! ## The patterns -/

/-- `\d` -/
def digit : Pattern Char := .one Char.isDigit

/-- `[lo-hi]` -/
def range (lo hi : Char) : Pattern Char := .one fun c => decide (lo ≤ c) && decide (c ≤ hi)

def lit (c : Char) : Pattern Char := word [c]

/-- `p\.q` -/
def dotted (p q : Pattern Char) : Pattern Char := field '.' p q

/-- `(1[6-9]|2\d|3[01])` -/
def from16To31 : Pattern Char :=
  .alt (.seq (lit '1') (range '6' '9')) (.alt (.seq (lit '2') digit)
    (.seq (lit '3') (range '0' '1')))

/-- `(6[4-9]|[7-9]\d|1[01]\d|12[0-7])` -/
def from64To127 : Pattern Char :=
  .alt (.seq (lit '6') (range '4' '9')) (.alt (.seq (range '7' '9') digit)
    (.alt (.seq (lit '1') (.seq (range '0' '1') digit))
      (.seq (word ['1', '2']) (range '0' '7'))))

/-- `5[12]` -/
def either51Or52 : Pattern Char := .seq (lit '5') (range '1' '2')

/-- `/^w/i` -/
def caseless (w : List Char) (atEnd : Bool) : RegExp Char :=
  ⟨symbols (w.map fun a b => b.toUpper == a.toUpper), atEnd⟩

def PRIVATE_IPV4_PATTERNS : List (RegExp Char) :=
  [⟨dotted (word ['1', '2', '7']) .empty, false⟩,
    ⟨dotted (word ['1', '0']) .empty, false⟩,
    ⟨dotted (word ['1', '7', '2']) (dotted from16To31 .empty), false⟩,
    ⟨dotted (word ['1', '9', '2']) (dotted (word ['1', '6', '8']) .empty), false⟩,
    ⟨dotted (word ['1', '6', '9']) (dotted (word ['2', '5', '4']) .empty), false⟩,
    ⟨dotted (word ['0']) .empty, false⟩,
    ⟨dotted (word ['1', '0', '0']) (dotted from64To127 .empty), false⟩,
    ⟨dotted (word ['1', '9', '2']) (dotted (word ['0']) (dotted (word ['2']) .empty)), false⟩,
    ⟨dotted (word ['1', '9', '8']) (dotted either51Or52 .empty), false⟩,
    ⟨dotted (word ['2', '0', '3']) (dotted (word ['0']) (dotted (word ['1', '1', '3']) .empty)),
      false⟩,
    ⟨dotted (word ['2', '2', '4']) .empty, false⟩,
    ⟨dotted (word ['2', '4', '0']) .empty, false⟩,
    ⟨dotted (word ['2', '5', '5']) (dotted (word ['2', '5', '5']) (dotted (word ['2', '5', '5'])
      (word ['2', '5', '5']))), true⟩]

def PRIVATE_IPV6_PATTERNS : List (RegExp Char) :=
  [caseless [':', ':', '1'] true,
    caseless ['f', 'c'] false,
    caseless ['f', 'd'] false,
    caseless ['f', 'e', '8', '0', ':'] false,
    caseless [':', ':', 'f', 'f', 'f', 'f', ':'] false,
    caseless ['6', '4', ':', 'f', 'f', '9', 'b', ':'] false]

def stripBrackets (ip : List Char) : List Char :=
  let opened := if ip.head? = some '[' then ip.tail else ip
  if opened.getLast? = some ']' then opened.dropLast else opened

def isPrivateIp (ip : List Char) : Bool :=
  let cleaned := stripBrackets ip
  if ':' ∈ cleaned then PRIVATE_IPV6_PATTERNS.any (·.test cleaned)
  else PRIVATE_IPV4_PATTERNS.any (·.test cleaned)

theorem stripBrackets_of_plain {ip : List Char} (opens : '[' ∉ ip) (closes : ']' ∉ ip) :
    stripBrackets ip = ip := by
  have unopened : ip.head? ≠ some '[' := fun first => opens (List.mem_of_mem_head? first)
  have unclosed : ip.getLast? ≠ some ']' := fun last => closes (List.mem_of_mem_getLast? last)
  rw [stripBrackets, if_neg unopened, if_neg unclosed]

theorem stripBrackets_bracketed (ip : List Char) : stripBrackets ('[' :: (ip ++ [']'])) = ip := by
  simp [stripBrackets]

/-! ## Dotted quads -/

structure Ipv4Address where
  a : Fin 256
  b : Fin 256
  c : Fin 256
  d : Fin 256

/-- The octets without leading zeros. -/
def Ipv4Address.text (ip : Ipv4Address) : List Char :=
  decimal ip.a ++ '.' :: (decimal ip.b ++ '.' :: (decimal ip.c ++ '.' :: decimal ip.d))

theorem not_mem_text {ip : Ipv4Address} {c : Char} (other : c.isDigit = false) (dot : c ≠ '.') :
    c ∉ ip.text := by
  simp [Ipv4Address.text, not_mem_decimal other, dot]

theorem test_dotted {p q : Pattern Char} {e : Bool} (avoids : p.Avoids '.') (n : Nat)
    (s : List Char) :
    RegExp.test ⟨dotted p q, e⟩ (decimal n ++ '.' :: s) =
      (p.accepts (decimal n) && RegExp.test ⟨q, e⟩ s) :=
  test_field avoids (not_mem_decimal rfl n)

/-- The digits of a number, as the patterns spell them. -/
def Spelled (w : List Char) : Prop := Nat.toDigits 10 (Nat.ofDigitChars 10 w 0) = w

instance (w : List Char) : Decidable (Spelled w) := inferInstanceAs (Decidable (_ = _))

theorem accepts_decimal {w : List Char} (spelled : Spelled w) (n : Nat) :
    (word w).accepts (decimal n) = decide (n = Nat.ofDigitChars 10 w 0) := by
  rw [Bool.eq_iff_iff, accepts_iff, accepts_word, decide_eq_true_iff]
  constructor
  · intro same
    rw [← same, decimal_eq, Nat.ofDigitChars_ten_toDigits]
  · intro same
    rw [same, decimal_eq]
    exact spelled

/-! ### The fields -/

theorem avoids_from16To31 : from16To31.Avoids '.' := by
  apply Pattern.Avoids.alt
  · exact (avoids_word (by decide)).seq (avoids_one (by decide))
  · exact ((avoids_word (by decide)).seq (avoids_one (by decide))).alt
      ((avoids_word (by decide)).seq (avoids_one (by decide)))

theorem avoids_from64To127 : from64To127.Avoids '.' := by
  apply Pattern.Avoids.alt
  · exact (avoids_word (by decide)).seq (avoids_one (by decide))
  · apply Pattern.Avoids.alt
    · exact (avoids_one (by decide)).seq (avoids_one (by decide))
    · apply Pattern.Avoids.alt
      · exact (avoids_word (by decide)).seq ((avoids_one (by decide)).seq (avoids_one (by decide)))
      · exact (avoids_word (by decide)).seq (avoids_one (by decide))

theorem avoids_either51Or52 : either51Or52.Avoids '.' :=
  (avoids_word (by decide)).seq (avoids_one (by decide))

theorem accepts_from16To31 (n : Fin 256) :
    from16To31.accepts (decimal n) = decide (16 ≤ n.val ∧ n.val ≤ 31) := by
  rw [decimal_eq]
  revert n
  decide +kernel

theorem accepts_from64To127 (n : Fin 256) :
    from64To127.accepts (decimal n) = decide (64 ≤ n.val ∧ n.val ≤ 127) := by
  rw [decimal_eq]
  revert n
  decide +kernel

theorem accepts_either51Or52 (n : Fin 256) :
    either51Or52.accepts (decimal n) = decide (n.val = 51 ∨ n.val = 52) := by
  rw [decimal_eq]
  revert n
  decide +kernel

theorem test_empty (s : List Char) : RegExp.test ⟨.empty, false⟩ s = true := rfl

theorem test_last {w : List Char} (spelled : Spelled w) (n : Nat) :
    RegExp.test ⟨word w, true⟩ (decimal n) = decide (n = Nat.ofDigitChars 10 w 0) := by
  rw [← accepts_decimal spelled]
  simp [RegExp.test, Pattern.accepts]

/-- A field of the text of an address is a word. -/
theorem test_octet {w : List Char} {q : Pattern Char} {e : Bool} (spelled : Spelled w) (n : Nat)
    (s : List Char) :
    RegExp.test ⟨dotted (word w) q, e⟩ (decimal n ++ '.' :: s) =
      (decide (n = Nat.ofDigitChars 10 w 0) && RegExp.test ⟨q, e⟩ s) := by
  have absent : '.' ∉ w := by
    rw [← spelled, ← decimal_eq]
    exact not_mem_decimal rfl _
  rw [test_dotted (avoids_word absent), accepts_decimal spelled]

/-- Which dotted quads the patterns match. -/
def Ipv4Address.Matched (ip : Ipv4Address) : Prop :=
  ip.a.val = 127 ∨ ip.a.val = 10 ∨ (ip.a.val = 172 ∧ 16 ≤ ip.b.val ∧ ip.b.val ≤ 31) ∨
    (ip.a.val = 192 ∧ ip.b.val = 168) ∨ (ip.a.val = 169 ∧ ip.b.val = 254) ∨ ip.a.val = 0 ∨
    (ip.a.val = 100 ∧ 64 ≤ ip.b.val ∧ ip.b.val ≤ 127) ∨
    (ip.a.val = 192 ∧ ip.b.val = 0 ∧ ip.c.val = 2) ∨
    (ip.a.val = 198 ∧ (ip.b.val = 51 ∨ ip.b.val = 52)) ∨
    (ip.a.val = 203 ∧ ip.b.val = 0 ∧ ip.c.val = 113) ∨ ip.a.val = 224 ∨ ip.a.val = 240 ∨
    (ip.a.val = 255 ∧ ip.b.val = 255 ∧ ip.c.val = 255 ∧ ip.d.val = 255)

theorem isPrivateIp_text_iff (ip : Ipv4Address) : isPrivateIp ip.text = true ↔ ip.Matched := by
  have plain : stripBrackets ip.text = ip.text :=
    stripBrackets_of_plain (not_mem_text rfl (by decide)) (not_mem_text rfl (by decide))
  rw [isPrivateIp, plain]
  rw [if_neg (not_mem_text rfl (by decide))]
  simp (disch := decide) only [PRIVATE_IPV4_PATTERNS, Ipv4Address.text, List.any_cons,
    List.any_nil, test_octet, test_last, test_dotted avoids_from16To31,
    test_dotted avoids_from64To127, test_dotted avoids_either51Or52, accepts_from16To31,
    accepts_from64To127, accepts_either51Or52, test_empty, Bool.or_eq_true,
    Bool.and_eq_true, decide_eq_true_eq, Bool.and_true, Bool.or_false]
  exact Iff.rfl

/-! ### The documented ranges -/

/-- The addresses that agree with `base` on the first `len` bits. -/
structure Cidr where
  base : Nat
  len : Nat

def Cidr.Contains (width : Nat) (range : Cidr) (address : Nat) : Prop :=
  address / 2 ^ (width - range.len) = range.base / 2 ^ (width - range.len)

def quadValue (a b c d : Nat) : Nat := ((a * 256 + b) * 256 + c) * 256 + d

def Ipv4Address.value (ip : Ipv4Address) : Nat := quadValue ip.a ip.b ip.c ip.d

def documentedIpv4 : List Cidr :=
  [⟨quadValue 0 0 0 0, 8⟩, ⟨quadValue 10 0 0 0, 8⟩, ⟨quadValue 100 64 0 0, 10⟩,
    ⟨quadValue 127 0 0 0, 8⟩, ⟨quadValue 169 254 0 0, 16⟩, ⟨quadValue 172 16 0 0, 12⟩,
    ⟨quadValue 192 168 0 0, 16⟩, ⟨quadValue 192 0 2 0, 24⟩, ⟨quadValue 198 51 100 0, 24⟩,
    ⟨quadValue 203 0 113 0, 24⟩, ⟨quadValue 224 0 0 0, 4⟩, ⟨quadValue 240 0 0 0, 4⟩]

def Ipv4Address.Documented (ip : Ipv4Address) : Prop :=
  ∃ range ∈ documentedIpv4, range.Contains 32 ip.value

section
variable (ip : Ipv4Address)

theorem contains_first (k : Nat) :
    Cidr.Contains 32 ⟨quadValue k 0 0 0, 8⟩ ip.value ↔ ip.a.val = k := by
  obtain ⟨a, b, c, d⟩ := ip
  simp only [Cidr.Contains, Ipv4Address.value, quadValue]
  omega

theorem contains_second (k l : Nat) (octet : l < 256) :
    Cidr.Contains 32 ⟨quadValue k l 0 0, 16⟩ ip.value ↔ ip.a.val = k ∧ ip.b.val = l := by
  obtain ⟨a, b, c, d⟩ := ip
  simp only [Cidr.Contains, Ipv4Address.value, quadValue]
  omega

theorem contains_third (k l m : Nat) (octet : l < 256) (octet' : m < 256) :
    Cidr.Contains 32 ⟨quadValue k l m 0, 24⟩ ip.value ↔
      ip.a.val = k ∧ ip.b.val = l ∧ ip.c.val = m := by
  obtain ⟨a, b, c, d⟩ := ip
  simp only [Cidr.Contains, Ipv4Address.value, quadValue]
  omega

theorem contains_shared :
    Cidr.Contains 32 ⟨quadValue 100 64 0 0, 10⟩ ip.value ↔
      ip.a.val = 100 ∧ 64 ≤ ip.b.val ∧ ip.b.val ≤ 127 := by
  obtain ⟨a, b, c, d⟩ := ip
  simp only [Cidr.Contains, Ipv4Address.value, quadValue]
  omega

theorem contains_private :
    Cidr.Contains 32 ⟨quadValue 172 16 0 0, 12⟩ ip.value ↔
      ip.a.val = 172 ∧ 16 ≤ ip.b.val ∧ ip.b.val ≤ 31 := by
  obtain ⟨a, b, c, d⟩ := ip
  simp only [Cidr.Contains, Ipv4Address.value, quadValue]
  omega

/-- The blocks of 16 first octets. -/
theorem contains_class (k : Nat) :
    Cidr.Contains 32 ⟨quadValue (16 * k) 0 0 0, 4⟩ ip.value ↔
      16 * k ≤ ip.a.val ∧ ip.a.val < 16 * k + 16 := by
  obtain ⟨a, b, c, d⟩ := ip
  simp only [Cidr.Contains, Ipv4Address.value, quadValue]
  omega

theorem documented_iff :
    ip.Documented ↔ ip.a.val = 0 ∨ ip.a.val = 10 ∨
      (ip.a.val = 100 ∧ 64 ≤ ip.b.val ∧ ip.b.val ≤ 127) ∨ ip.a.val = 127 ∨
      (ip.a.val = 169 ∧ ip.b.val = 254) ∨
      (ip.a.val = 172 ∧ 16 ≤ ip.b.val ∧ ip.b.val ≤ 31) ∨ (ip.a.val = 192 ∧ ip.b.val = 168) ∨
      (ip.a.val = 192 ∧ ip.b.val = 0 ∧ ip.c.val = 2) ∨
      (ip.a.val = 198 ∧ ip.b.val = 51 ∧ ip.c.val = 100) ∨
      (ip.a.val = 203 ∧ ip.b.val = 0 ∧ ip.c.val = 113) ∨
      (224 ≤ ip.a.val ∧ ip.a.val < 240) ∨ 240 ≤ ip.a.val ∧ ip.a.val < 256 := by
  simp only [Ipv4Address.Documented, documentedIpv4, List.mem_cons, List.not_mem_nil, or_false,
    exists_eq_or_imp, exists_eq_left, contains_first, contains_shared, contains_private,
    contains_second ip 169 254 (by decide), contains_second ip 192 168 (by decide),
    contains_third ip 192 0 2 (by decide) (by decide),
    contains_third ip 198 51 100 (by decide) (by decide),
    contains_third ip 203 0 113 (by decide) (by decide), contains_class ip 14,
    contains_class ip 15]

/-- The patterns of the blocks of 16 first octets have only the first of them. -/
def Ipv4Address.Missed : Prop :=
  (225 ≤ ip.a.val ∧ ip.a.val ≤ 239) ∨
    241 ≤ ip.a.val ∧ ¬(ip.a.val = 255 ∧ ip.b.val = 255 ∧ ip.c.val = 255 ∧ ip.d.val = 255)

/-- The pattern of 198.51.100.0/24 does not look at the third octet, and has 52 too. -/
def Ipv4Address.Overblocked : Prop :=
  ip.a.val = 198 ∧ (ip.b.val = 51 ∧ ip.c.val ≠ 100 ∨ ip.b.val = 52)

variable {ip}

theorem matched_of_documented (documented : ip.Documented) (found : ¬ip.Missed) : ip.Matched := by
  rw [documented_iff] at documented
  unfold Ipv4Address.Missed at found
  rcases documented with h | h | h | h | h | h | h | h | h | h | class224 | class240
  case inr.inr.inr.inr.inr.inr.inr.inr.inr.inr.inl =>
    have first : ip.a.val = 224 := by omega
    simp [Ipv4Address.Matched, first]
  case inr.inr.inr.inr.inr.inr.inr.inr.inr.inr.inr =>
    have first : ip.a.val = 240 ∨
        ip.a.val = 255 ∧ ip.b.val = 255 ∧ ip.c.val = 255 ∧ ip.d.val = 255 := by omega
    obtain first | broadcast := first
    · simp [Ipv4Address.Matched, first]
    · simp [Ipv4Address.Matched, broadcast]
  all_goals simp [Ipv4Address.Matched, h]

theorem documented_of_matched (matched : ip.Matched) (clear : ¬ip.Overblocked) :
    ip.Documented := by
  rw [documented_iff]
  rcases matched with h | h | h | h | h | h | h | h | ⟨first, second⟩ | h | h | h | h
  case inr.inr.inr.inr.inr.inr.inr.inr.inl =>
    have rest : ip.b.val = 51 ∧ ip.c.val = 100 := by
      unfold Ipv4Address.Overblocked at clear
      omega
    simp [first, rest]
  all_goals simp [h]

theorem not_matched_of_missed (missed : ip.Missed) : ¬ip.Matched := by
  unfold Ipv4Address.Missed at missed
  rintro (h | h | h | h | h | h | h | h | h | h | h | h | h)
  all_goals omega

theorem documented_of_missed (missed : ip.Missed) : ip.Documented := by
  have classes : (224 ≤ ip.a.val ∧ ip.a.val < 240) ∨ 240 ≤ ip.a.val ∧ ip.a.val < 256 := by
    unfold Ipv4Address.Missed at missed
    omega
  rw [documented_iff]
  iterate 10 apply Or.inr
  exact classes

theorem matched_of_overblocked (overblocked : ip.Overblocked) : ip.Matched := by
  obtain ⟨first, ⟨second, -⟩ | second⟩ := overblocked
  · simp [Ipv4Address.Matched, first, second]
  · simp [Ipv4Address.Matched, first, second]

theorem not_documented_of_overblocked (overblocked : ip.Overblocked) : ¬ip.Documented := by
  rw [documented_iff]
  unfold Ipv4Address.Overblocked at overblocked
  rintro (h | h | h | h | h | h | h | h | h | h | h | h)
  all_goals omega

theorem isPrivateIp_documented_iff :
    (isPrivateIp ip.text = true ↔ ip.Documented) ↔ ¬ip.Missed ∧ ¬ip.Overblocked := by
  rw [isPrivateIp_text_iff]
  constructor
  · intro agree
    constructor
    · intro missed
      exact not_matched_of_missed missed (agree.mpr (documented_of_missed missed))
    · intro overblocked
      exact not_documented_of_overblocked overblocked
        (agree.mp (matched_of_overblocked overblocked))
  · rintro ⟨found, clear⟩
    exact ⟨fun matched => documented_of_matched matched clear,
      fun documented => matched_of_documented documented found⟩

end

/-! ## IPv6 literals -/

structure Ipv6Address where
  pieces : Fin 8 → Fin 65536

def Ipv6Address.list (ip : Ipv6Address) : List Nat :=
  [ip.pieces 0, ip.pieces 1, ip.pieces 2, ip.pieces 3, ip.pieces 4, ip.pieces 5, ip.pieces 6,
    ip.pieces 7]

/-- How many pieces from the index on are 0. -/
def zeroRun (pieces : List Nat) (i : Nat) : Nat := ((pieces.drop i).takeWhile (· = 0)).length

/-- Where the first of the longest runs of zeros is, if it is longer than 1. -/
def compressAt (pieces : List Nat) : Option Nat :=
  let longest := ((List.range pieces.length).map (zeroRun pieces)).foldl max 0
  if 1 < longest then
    (List.range pieces.length).find? fun i => decide (zeroRun pieces i = longest)
  else none

/-- The pieces from the index `i` on, as the serializer of URLs writes them. -/
def writePieces (compress : Option Nat) : Nat → Bool → List Nat → List Char
  | _, _, [] => []
  | i, ignore0, piece :: rest =>
    if ignore0 ∧ piece = 0 then writePieces compress (i + 1) true rest
    else if compress = some i then
      (if i = 0 then [':', ':'] else [':']) ++ writePieces compress (i + 1) true rest
    else
      Nat.toDigits 16 piece ++ (if rest.isEmpty then [] else [':']) ++
        writePieces compress (i + 1) false rest

def serialize (pieces : List Nat) : List Char := writePieces (compressAt pieces) 0 false pieces

def Ipv6Address.text (ip : Ipv6Address) : List Char := serialize ip.list

example : serialize [0x2001, 0xdb8, 0, 0, 1, 0, 0, 1] = "2001:db8::1:0:0:1".toList := by decide

theorem compressAt_zero {pieces : List Nat} {i : Nat} (found : compressAt pieces = some i) :
    pieces[i]? = some 0 := by
  rw [compressAt] at found
  split at found
  · rename_i long
    have run := List.find?_some found
    rw [decide_eq_true_iff] at run
    rw [← run, zeroRun] at long
    cases rest : pieces.drop i with
    | nil => simp [rest] at long
    | cons piece others =>
      have here : pieces[i]? = some piece := by
        rw [← List.head?_drop, rest]
        rfl
      by_cases zero : piece = 0
      · rw [here, zero]
      · simp [rest, zero] at long
  · cases found

/-- A piece that is not 0 is written. -/
theorem writePieces_cons {compress : Option Nat} {i : Nat} {piece next : Nat} {rest : List Nat}
    (other : compress ≠ some i) :
    writePieces compress i false (piece :: next :: rest) =
      Nat.toDigits 16 piece ++ ':' :: writePieces compress (i + 1) false (next :: rest) := by
  rw [writePieces, if_neg (by simp), if_neg other]
  simp

theorem serialize_cons {piece next : Nat} {rest : List Nat} (nonzero : piece ≠ 0) :
    serialize (piece :: next :: rest) = Nat.toDigits 16 piece ++
      ':' :: writePieces (compressAt (piece :: next :: rest)) 1 false (next :: rest) := by
  apply writePieces_cons
  intro found
  have zero := compressAt_zero found
  cases zero
  exact nonzero rfl

theorem serialize_cons_cons {piece next third : Nat} {rest : List Nat} (nonzero : piece ≠ 0)
    (nonzero' : next ≠ 0) :
    serialize (piece :: next :: third :: rest) = Nat.toDigits 16 piece ++
      ':' :: (Nat.toDigits 16 next ++
        ':' :: writePieces (compressAt (piece :: next :: third :: rest)) 2 false
          (third :: rest)) := by
  have other : compressAt (piece :: next :: third :: rest) ≠ some 1 := by
    intro found
    have zero := compressAt_zero found
    cases zero
    exact nonzero' rfl
  rw [serialize_cons nonzero, writePieces_cons other]

/-! ### The documented ranges -/

def piecesValue (pieces : List Nat) : Nat := pieces.foldl (fun v piece => v * 65536 + piece) 0

def Ipv6Address.value (ip : Ipv6Address) : Nat := piecesValue ip.list

def unspecified : Cidr := ⟨0, 128⟩

def loopback : Cidr := ⟨1, 128⟩

def uniqueLocal : Cidr := ⟨piecesValue [0xfc00, 0, 0, 0, 0, 0, 0, 0], 7⟩

def linkLocal : Cidr := ⟨piecesValue [0xfe80, 0, 0, 0, 0, 0, 0, 0], 10⟩

def ipv4Mapped : Cidr := ⟨piecesValue [0, 0, 0, 0, 0, 0xffff, 0, 0], 96⟩

def nat64 : Cidr := ⟨piecesValue [0x64, 0xff9b, 0, 0, 0, 0, 0, 0], 96⟩

def documentedIpv6 : List Cidr :=
  [unspecified, loopback, uniqueLocal, linkLocal, ipv4Mapped, nat64]

def Ipv6Address.Documented (ip : Ipv6Address) : Prop :=
  ∃ range ∈ documentedIpv6, range.Contains 128 ip.value

section
variable (ip : Ipv6Address)

theorem value_eq :
    ip.value = ip.pieces 0 * 65536 ^ 7 + ip.pieces 1 * 65536 ^ 6 + ip.pieces 2 * 65536 ^ 5 +
      ip.pieces 3 * 65536 ^ 4 + ip.pieces 4 * 65536 ^ 3 + ip.pieces 5 * 65536 ^ 2 +
      ip.pieces 6 * 65536 + ip.pieces 7 := by
  simp only [Ipv6Address.value, piecesValue, Ipv6Address.list, List.foldl_cons, List.foldl_nil]
  omega

theorem contains_unspecified :
    unspecified.Contains 128 ip.value ↔ ip.list = [0, 0, 0, 0, 0, 0, 0, 0] := by
  rw [Cidr.Contains, value_eq]
  simp only [unspecified, Ipv6Address.list, List.cons.injEq, and_true]
  omega

theorem contains_loopback :
    loopback.Contains 128 ip.value ↔ ip.list = [0, 0, 0, 0, 0, 0, 0, 1] := by
  rw [Cidr.Contains, value_eq]
  simp only [loopback, Ipv6Address.list, List.cons.injEq, and_true]
  omega

theorem contains_uniqueLocal : uniqueLocal.Contains 128 ip.value ↔
    0xfc00 ≤ (ip.pieces 0).val ∧ (ip.pieces 0).val ≤ 0xfdff := by
  rw [Cidr.Contains, value_eq]
  simp only [uniqueLocal, piecesValue, List.foldl_cons, List.foldl_nil]
  omega

theorem contains_linkLocal : linkLocal.Contains 128 ip.value ↔
    0xfe80 ≤ (ip.pieces 0).val ∧ (ip.pieces 0).val ≤ 0xfebf := by
  rw [Cidr.Contains, value_eq]
  simp only [linkLocal, piecesValue, List.foldl_cons, List.foldl_nil]
  omega

theorem contains_ipv4Mapped (inside : ipv4Mapped.Contains 128 ip.value) :
    ip.list = [0, 0, 0, 0, 0, 0xffff, (ip.pieces 6).val, (ip.pieces 7).val] := by
  rw [Cidr.Contains, value_eq] at inside
  simp only [ipv4Mapped, piecesValue, List.foldl_cons, List.foldl_nil] at inside
  simp only [Ipv6Address.list, List.cons.injEq, and_true]
  omega

theorem contains_nat64 (inside : nat64.Contains 128 ip.value) :
    (ip.pieces 0).val = 0x64 ∧ (ip.pieces 1).val = 0xff9b := by
  rw [Cidr.Contains, value_eq] at inside
  simp only [nat64, piecesValue, List.foldl_cons, List.foldl_nil] at inside
  omega

end

/-! ### The texts -/

theorem digit_of_mem_hex {c : Char} {n : Nat} (mem : c ∈ Nat.toDigits 16 n) :
    ∃ k < 16, c = Nat.digitChar k := by
  induction n using Nat.strongRecOn with
  | ind n ih =>
    rw [Nat.toDigits_eq_if (by decide)] at mem
    split at mem
    · rename_i small
      exact ⟨n, small, List.mem_singleton.mp mem⟩
    · obtain mem | mem := List.mem_append.mp mem
      · exact ih (n / 16) (by omega) mem
      · exact ⟨n % 16, by omega, List.mem_singleton.mp mem⟩

theorem not_mem_writePieces {c : Char} (hex : ∀ k < 16, c ≠ Nat.digitChar k) (colon : c ≠ ':')
    (compress : Option Nat) (pieces : List Nat) (i : Nat) (ignore0 : Bool) :
    c ∉ writePieces compress i ignore0 pieces := by
  have absent : ∀ n, c ∉ Nat.toDigits 16 n := by
    intro n mem
    obtain ⟨k, small, digit⟩ := digit_of_mem_hex mem
    exact hex k small digit
  induction pieces generalizing i ignore0 with
  | nil => exact List.not_mem_nil
  | cons piece rest ih =>
    rw [writePieces]
    split
    · exact ih (i + 1) true
    · split
      · split <;> simp [colon, ih]
      · split <;> simp [colon, ih, absent]

/-- Four digits. -/
theorem hex_of_large {n : Nat} (large : 4096 ≤ n) (bound : n < 65536) :
    Nat.toDigits 16 n = [Nat.digitChar (n / 4096), Nat.digitChar (n / 256 % 16),
      Nat.digitChar (n / 16 % 16), Nat.digitChar (n % 16)] := by
  have twice : n / 16 / 16 = n / 256 := by omega
  have thrice : n / 256 / 16 = n / 4096 := by omega
  rw [Nat.toDigits_of_base_le (by decide) (by omega),
    Nat.toDigits_of_base_le (by decide) (by omega),
    Nat.toDigits_of_base_le (by decide) (by omega),
    Nat.toDigits_of_lt_base (by omega), twice, thrice]
  rfl

/-- A literal in brackets is told as the bare one, by the patterns of IPv6. -/
theorem blocked_iff (ip : Ipv6Address) {shown : List Char} (text : ip.text = shown)
    (colon : ':' ∈ shown) :
    (isPrivateIp ip.text = true ∧ isPrivateIp ('[' :: (ip.text ++ [']'])) = true) ↔
      PRIVATE_IPV6_PATTERNS.any (·.test shown) = true := by
  have opens : '[' ∉ ip.text := not_mem_writePieces (by decide) (by decide) _ _ _ _
  have closes : ']' ∉ ip.text := not_mem_writePieces (by decide) (by decide) _ _ _ _
  have plain := stripBrackets_of_plain opens closes
  have inner := stripBrackets_bracketed ip.text
  rw [text] at plain inner ⊢
  have bare : isPrivateIp shown = PRIVATE_IPV6_PATTERNS.any (·.test shown) := by
    rw [isPrivateIp, plain, if_pos colon]
  have bracketed : isPrivateIp ('[' :: (shown ++ [']'])) =
      PRIVATE_IPV6_PATTERNS.any (·.test shown) := by
    rw [isPrivateIp, inner, if_pos colon]
  rw [bare, bracketed, and_self]

/-- What the text of an address is, when its first piece is not 0. -/
theorem text_cons (ip : Ipv6Address) (nonzero : (ip.pieces 0).val ≠ 0) :
    ip.text = Nat.toDigits 16 (ip.pieces 0) ++
      ':' :: writePieces (compressAt ip.list) 1 false ip.list.tail :=
  serialize_cons nonzero

theorem text_cons_cons (ip : Ipv6Address) (nonzero : (ip.pieces 0).val ≠ 0)
    (nonzero' : (ip.pieces 1).val ≠ 0) :
    ip.text = Nat.toDigits 16 (ip.pieces 0) ++ ':' :: (Nat.toDigits 16 (ip.pieces 1) ++
      ':' :: writePieces (compressAt ip.list) 2 false ip.list.tail.tail) :=
  serialize_cons_cons nonzero nonzero'

theorem blocked_uniqueLocal (ip : Ipv6Address) (inside : uniqueLocal.Contains 128 ip.value) :
    isPrivateIp ip.text = true ∧ isPrivateIp ('[' :: (ip.text ++ [']'])) = true := by
  obtain ⟨low, high⟩ := (contains_uniqueLocal ip).mp inside
  have text := text_cons ip (by omega)
  have first : (ip.pieces 0).val / 4096 = 15 := by omega
  have second : (ip.pieces 0).val / 256 % 16 = 12 ∨ (ip.pieces 0).val / 256 % 16 = 13 := by omega
  rw [hex_of_large (by omega) (by omega), first] at text
  rw [blocked_iff ip text (by simp)]
  have f : Nat.digitChar 15 = 'f' := rfl
  have c : Nat.digitChar 12 = 'c' := rfl
  have d : Nat.digitChar 13 = 'd' := rfl
  obtain second | second := second
  · simp [PRIVATE_IPV6_PATTERNS, caseless, f, second, c]
  · simp [PRIVATE_IPV6_PATTERNS, caseless, f, second, d]

/-- Of the link-local addresses, the pattern has those that begin as the base does. -/
theorem blocked_linkLocal_iff (ip : Ipv6Address) (inside : linkLocal.Contains 128 ip.value) :
    (isPrivateIp ip.text = true ∧ isPrivateIp ('[' :: (ip.text ++ [']'])) = true) ↔
      (ip.pieces 0).val = 0xfe80 := by
  obtain ⟨low, high⟩ := (contains_linkLocal ip).mp inside
  have text := text_cons ip (by omega)
  have first : (ip.pieces 0).val / 4096 = 15 := by omega
  have second : (ip.pieces 0).val / 256 % 16 = 14 := by omega
  rw [hex_of_large (by omega) (by omega), first, second] at text
  rw [blocked_iff ip text (by simp)]
  have eight : ∀ k < 16, (Nat.digitChar k).toUpper = '8' ↔ k = 8 := by decide
  have zero : ∀ k < 16, (Nat.digitChar k).toUpper = '0' ↔ k = 0 := by decide
  have f : Nat.digitChar 15 = 'f' := rfl
  have e : Nat.digitChar 14 = 'e' := rfl
  simp [PRIVATE_IPV6_PATTERNS, caseless, f, e, eight _ (Nat.mod_lt _ (by decide)), zero _ (Nat.mod_lt _ (by decide))]
  omega

theorem compressAt_mapped (x y : Nat) : compressAt [0, 0, 0, 0, 0, 0xffff, x, y] = some 0 := by
  by_cases zero : x = 0
  · by_cases zero' : y = 0
    · rw [zero, zero']
      decide
    · simp [compressAt, zeroRun, List.range, List.range.loop, zero, zero']
  · by_cases zero' : y = 0
    · simp [compressAt, zeroRun, List.range, List.range.loop, zero, zero']
    · simp [compressAt, zeroRun, List.range, List.range.loop, zero, zero']

theorem blocked_ipv4Mapped (ip : Ipv6Address) (inside : ipv4Mapped.Contains 128 ip.value) :
    isPrivateIp ip.text = true ∧ isPrivateIp ('[' :: (ip.text ++ [']'])) = true := by
  have list := contains_ipv4Mapped ip inside
  have text : ip.text = [':', ':', 'f', 'f', 'f', 'f', ':'] ++
      writePieces (some 0) 6 false [(ip.pieces 6).val, (ip.pieces 7).val] := by
    rw [Ipv6Address.text, list, serialize, compressAt_mapped]
    rfl
  rw [blocked_iff ip text (by simp)]
  simp [PRIVATE_IPV6_PATTERNS, caseless]

theorem blocked_nat64 (ip : Ipv6Address) (inside : nat64.Contains 128 ip.value) :
    isPrivateIp ip.text = true ∧ isPrivateIp ('[' :: (ip.text ++ [']'])) = true := by
  obtain ⟨first, second⟩ := contains_nat64 ip inside
  have text := text_cons_cons ip (by omega) (by omega)
  have hex : Nat.toDigits 16 0x64 = ['6', '4'] := by decide
  have hex' : Nat.toDigits 16 0xff9b = ['f', 'f', '9', 'b'] := by decide
  rw [first, second, hex, hex'] at text
  rw [blocked_iff ip text (by simp)]
  simp [PRIVATE_IPV6_PATTERNS, caseless]

theorem blocked_loopback (ip : Ipv6Address) (inside : loopback.Contains 128 ip.value) :
    isPrivateIp ip.text = true ∧ isPrivateIp ('[' :: (ip.text ++ [']'])) = true := by
  have list := (contains_loopback ip).mp inside
  have text : ip.text = [':', ':', '1'] := by
    rw [Ipv6Address.text, list]
    decide
  rw [blocked_iff ip text (by simp)]
  decide

theorem passed_unspecified (ip : Ipv6Address) (inside : unspecified.Contains 128 ip.value) :
    isPrivateIp ip.text = false := by
  have list := (contains_unspecified ip).mp inside
  have text : ip.text = [':', ':'] := by
    rw [Ipv6Address.text, list]
    decide
  rw [text]
  decide

/-! ## Both notations -/

/-- Dotted quads are private just when they are documented, and documented IPv6 literals are, bare
or in brackets. -/
def Guards : Ipv4Address ⊕ Ipv6Address → Prop
  | .inl ip => isPrivateIp ip.text = true ↔ ip.Documented
  | .inr ip => ip.Documented →
      isPrivateIp ip.text = true ∧ isPrivateIp ('[' :: (ip.text ++ [']'])) = true

/-- **The literals that the patterns tell rightly**: all but the multicast and reserved quads of
which the first octet is not the first of its block, the quads beside 198.51.100.0/24, the
unspecified IPv6 address, and the link-local ones that begin otherwise than their base. -/
theorem isPrivateIp_guards_iff (literal : Ipv4Address ⊕ Ipv6Address) :
    Guards literal ↔
      match literal with
      | .inl ip => ¬ip.Missed ∧ ¬ip.Overblocked
      | .inr ip => ¬unspecified.Contains 128 ip.value ∧
          (linkLocal.Contains 128 ip.value → (ip.pieces 0).val = 0xfe80) := by
  cases literal with
  | inl ip => exact isPrivateIp_documented_iff
  | inr ip =>
    constructor
    · intro guards
      constructor
      · intro inside
        have blocked := (guards ⟨unspecified, by simp [documentedIpv6], inside⟩).1
        rw [passed_unspecified ip inside] at blocked
        cases blocked
      · intro inside
        exact (blocked_linkLocal_iff ip inside).mp
          (guards ⟨linkLocal, by simp [documentedIpv6], inside⟩)
    · rintro ⟨specified, begins⟩ ⟨range, listed, inside⟩
      simp only [documentedIpv6, List.mem_cons, List.not_mem_nil, or_false] at listed
      obtain rfl | rfl | rfl | rfl | rfl | rfl := listed
      · exact absurd inside specified
      · exact blocked_loopback ip inside
      · exact blocked_uniqueLocal ip inside
      · exact (blocked_linkLocal_iff ip inside).mpr (begins inside)
      · exact blocked_ipv4Mapped ip inside
      · exact blocked_nat64 ip inside

/-- A multicast quad that is documented and passes; so do the unspecified address and a link-local
one, and a quad of no documented range is blocked. -/
theorem isPrivateIp_multicast_passes :
    ¬Guards (.inl ⟨239, 1, 2, 3⟩) ∧
    isPrivateIp ['2', '3', '9', '.', '1', '.', '2', '.', '3'] = false ∧
    isPrivateIp ['[', ':', ':', ']'] = false ∧
    isPrivateIp ['[', 'f', 'e', '9', '0', ':', ':', '1', ']'] = false ∧
    isPrivateIp ['1', '9', '8', '.', '5', '2', '.', '0', '.', '1'] = true := by
  have text : (⟨239, 1, 2, 3⟩ : Ipv4Address).text =
      ['2', '3', '9', '.', '1', '.', '2', '.', '3'] := by
    simp only [Ipv4Address.text, decimal_eq]
    decide
  have passes : isPrivateIp ['2', '3', '9', '.', '1', '.', '2', '.', '3'] = false := by decide
  refine ⟨?_, passes, by decide, by decide, by decide⟩
  intro guards
  have blocked := guards.mpr ⟨⟨quadValue 224 0 0 0, 4⟩, by simp [documentedIpv4], by rfl⟩
  rw [text, passes] at blocked
  cases blocked

end GigaPdf
