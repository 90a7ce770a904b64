import Mathlib.Algebra.Group.Nat.Defs

/-!
# Text

What a text splits into at a separator, decimal numbers in texts, UTF-8, and the slices and string
methods `strip`, `lower` and `rsplit(sep, 1)[-1]` of Python.
-/

namespace Text

variable {α : Type} {a a' b b' : List α} {c : α}

/-- A text splits in one way at the first separator. -/
theorem split_first (h : a ++ c :: b = a' ++ c :: b') (ha : c ∉ a) (ha' : c ∉ a') :
    a = a' ∧ b = b' := by
  induction a generalizing a' with
  | nil =>
    cases a' with
    | nil => exact ⟨rfl, (List.cons.inj h).2⟩
    | cons x _ => exact absurd ((List.cons.inj h).1 ▸ List.mem_cons_self) ha'
  | cons x rest ih =>
    cases a' with
    | nil => exact absurd ((List.cons.inj h).1 ▸ List.mem_cons_self) ha
    | cons y rest' =>
      obtain ⟨hxy, h⟩ := List.cons.inj h
      obtain ⟨hr, hb⟩ := ih h (fun m => ha (List.mem_cons_of_mem _ m))
        fun m => ha' (List.mem_cons_of_mem _ m)
      exact ⟨by rw [hxy, hr], hb⟩

/-- A text splits in one way at the last separator. -/
theorem split_last (h : a ++ c :: b = a' ++ c :: b') (hb : c ∉ b) (hb' : c ∉ b') :
    a = a' ∧ b = b' := by
  have flipped : b.reverse ++ c :: a.reverse = b'.reverse ++ c :: a'.reverse := by
    simpa using congrArg List.reverse h
  obtain ⟨hb, ha⟩ := split_first flipped (by simpa using hb) (by simpa using hb')
  exact ⟨List.reverse_inj.mp ha, List.reverse_inj.mp hb⟩

/-- Segments that each end with a separator. -/
def terminated (c : α) (segments : List (List α)) : List α := segments.flatMap (· ++ [c])

theorem terminated_append (c : α) (segments segments' : List (List α)) :
    terminated c (segments ++ segments') = terminated c segments ++ terminated c segments' :=
  List.flatMap_append ..

/-- Segments without the separator can be read off. -/
theorem terminated_prefix_iff {segments segments' : List (List α)}
    (free : ∀ s ∈ segments, c ∉ s) (free' : ∀ s ∈ segments', c ∉ s) :
    terminated c segments <+: terminated c segments' ↔ segments <+: segments' := by
  constructor
  · intro start
    induction segments generalizing segments' with
    | nil => exact List.nil_prefix
    | cons s rest ih =>
      obtain ⟨tail, h⟩ := start
      cases segments' with
      | nil => simp [terminated] at h
      | cons s' rest' =>
        simp only [terminated, List.flatMap_cons, List.append_assoc, List.cons_append] at h
        obtain ⟨same, h⟩ := split_first h (free s List.mem_cons_self) (free' s' List.mem_cons_self)
        rw [same]
        refine List.cons_prefix_cons.mpr ⟨rfl, ih ?_ ?_ ⟨tail, h⟩⟩
        · exact fun x hx => free x (List.mem_cons_of_mem _ hx)
        · exact fun x hx => free' x (List.mem_cons_of_mem _ hx)
  · rintro ⟨rest, rfl⟩
    exact ⟨terminated c rest, (terminated_append ..).symm⟩

instance lawfulBEq_text : LawfulBEq (List Char) := inferInstance

/-- The digits of a number. -/
def decimal (n : Nat) : List Char := (toString n).toList

theorem decimal_eq (n : Nat) : decimal n = Nat.toDigits 10 n := by
  rw [decimal]
  exact Nat.toList_repr

theorem not_mem_decimal {c : Char} (hc : c.isDigit = false) (n : Nat) : c ∉ decimal n := by
  intro h
  rw [decimal_eq] at h
  rw [Nat.isDigit_of_mem_toDigits (by omega) (by omega) h] at hc
  cases hc

theorem decimal_inj {n m : Nat} (h : decimal n = decimal m) : n = m := by
  rw [decimal_eq, decimal_eq] at h
  rw [← Nat.ofDigitChars_ten_toDigits (n := n), h, Nat.ofDigitChars_ten_toDigits]

theorem length_decimal_le_iff {n k : Nat} (pos : 0 < k) :
    (decimal n).length ≤ k ↔ n < 10 ^ k := by
  rw [decimal_eq]
  exact Nat.length_toDigits_le_iff (by omega) pos

/-- `text[:stop]`: a negative bound counts from the end. -/
def upTo (text : List α) (stop : Int) : List α :=
  text.take (if 0 ≤ stop then stop.toNat else (text.length + stop).toNat)

theorem upTo_front (text : List α) (stop : Int) : upTo text stop <+: text := List.take_prefix ..

theorem upTo_eq_take (text : List α) {stop : Int} (pos : 0 ≤ stop) :
    upTo text stop = text.take stop.toNat := by
  rw [upTo, if_pos pos]

theorem length_upTo (text : List α) {stop : Int} (pos : 0 ≤ stop) :
    (upTo text stop).length = min stop.toNat text.length := by
  rw [upTo_eq_take text pos, List.length_take]

/-- The characters that `str.isspace` accepts. -/
def isSpace (c : Char) : Bool :=
  let n := c.toNat
  (0x09 ≤ n && n ≤ 0x0D) || (0x1C ≤ n && n ≤ 0x20) || n = 0x85 || n = 0xA0 || n = 0x1680 ||
    (0x2000 ≤ n && n ≤ 0x200A) || n = 0x2028 || n = 0x2029 || n = 0x202F || n = 0x205F ||
    n = 0x3000

def strip (text : List Char) : List Char :=
  ((text.dropWhile isSpace).reverse.dropWhile isSpace).reverse

/-- `lower` on ASCII letters; other characters are kept. -/
def lower (text : List Char) : List Char := text.map Char.toLower

/-- `text.rsplit(sep, 1)[-1]`: what follows the last separator, else the whole text. -/
def afterLast (sep : Char) (text : List Char) : List Char :=
  (text.reverse.takeWhile (· ≠ sep)).reverse

theorem exists_split_last {c : Char} {text : List Char} (mem : c ∈ text) :
    ∃ a b, text = a ++ c :: b ∧ c ∉ b := by
  obtain ⟨b, a, flipped, first⟩ := List.eq_append_cons_of_mem (List.mem_reverse.mpr mem)
  refine ⟨a.reverse, b.reverse, ?_, fun mem => first (List.mem_reverse.mp mem)⟩
  simpa using congrArg List.reverse flipped

theorem afterLast_append_cons {sep : Char} {b : List Char} (last : sep ∉ b) (a : List Char) :
    afterLast sep (a ++ sep :: b) = b := by
  have kept : ∀ c ∈ b.reverse, decide (c ≠ sep) = true := by
    intro c mem
    exact decide_eq_true fun eq => last (eq ▸ List.mem_reverse.mp mem)
  rw [afterLast, List.reverse_append, List.reverse_cons, List.append_assoc,
    List.takeWhile_append_of_pos kept]
  simp

/-- `text.rfind(c)` -/
def rfind (c : Char) (text : List Char) : Int :=
  if c ∈ text then text.length - 1 - text.reverse.idxOf c else -1

theorem rfind_append_cons {c : Char} {b : List Char} (last : c ∉ b) (a : List Char) :
    rfind c (a ++ c :: b) = a.length := by
  have last' : c ∉ b.reverse := fun mem => last (List.mem_reverse.mp mem)
  rw [rfind, if_pos (List.mem_append_cons_self ..), List.reverse_append, List.reverse_cons,
    List.append_assoc, List.idxOf_append, if_neg last']
  simp
  omega

/-- The bytes of a text in UTF-8. -/
def encode (text : List Char) : List UInt8 := text.flatMap String.utf8EncodeChar

theorem encode_inj {text text' : List Char} : encode text = encode text' ↔ text = text' := by
  refine ⟨fun same => ?_, fun same => same ▸ rfl⟩
  have bytes : text.utf8Encode = text'.utf8Encode := congrArg List.toByteArray same
  have decoded := congrArg ByteArray.utf8Decode? bytes
  rw [List.utf8Decode?_utf8Encode, List.utf8Decode?_utf8Encode] at decoded
  simpa using decoded

end Text
