import Mathlib.Data.Finset.Union
import Mathlib.Data.List.Basic

/-!
# Bytes

Big-endian numbers in a list of bytes, and loops that gather a set and may be cut short.
-/

namespace Bytes

def getUint8 (view : List UInt8) (i : Nat) : Option Nat := view[i]?.map UInt8.toNat

def getUint16 (view : List UInt8) (i : Nat) : Option Nat :=
  match getUint8 view i, getUint8 view (i + 1) with
  | some high, some low => some (high * 256 + low)
  | _, _ => none

def getUint32 (view : List UInt8) (i : Nat) : Option Nat :=
  match getUint16 view i, getUint16 view (i + 2) with
  | some high, some low => some (high * 65536 + low)
  | _, _ => none

/-- The bytes of numbers of two bytes each, without what does not fit. -/
def uint16s (numbers : List Nat) : List UInt8 :=
  numbers.flatMap fun n => [UInt8.ofNat (n / 256), UInt8.ofNat n]

variable {view : List UInt8} {i : Nat}

theorem getUint8_of_lt (inside : i < view.length) : ∃ n < 256, getUint8 view i = some n :=
  ⟨view[i].toNat, view[i].toNat_lt, by simp [getUint8, inside]⟩

theorem getUint16_of_le (inside : i + 2 ≤ view.length) :
    ∃ n < 65536, getUint16 view i = some n := by
  obtain ⟨high, highLt, highEq⟩ := getUint8_of_lt (show i < view.length by omega)
  obtain ⟨low, lowLt, lowEq⟩ := getUint8_of_lt (show i + 1 < view.length by omega)
  exact ⟨high * 256 + low, by omega, by rw [getUint16, highEq, lowEq]⟩

theorem getUint16_eq_none (behind : view.length < i + 2) : getUint16 view i = none := by
  have none : getUint8 view (i + 1) = none := by
    rw [getUint8, List.getElem?_eq_none (Nat.le_of_lt_succ behind), Option.map_none]
  rw [getUint16, none]
  cases getUint8 view i <;> rfl

theorem getUint32_of_le (inside : i + 4 ≤ view.length) : ∃ n, getUint32 view i = some n := by
  obtain ⟨high, -, highEq⟩ := getUint16_of_le (show i + 2 ≤ view.length by omega)
  obtain ⟨low, -, lowEq⟩ := getUint16_of_le (show i + 2 + 2 ≤ view.length by omega)
  exact ⟨high * 65536 + low, by rw [getUint32, highEq, lowEq]⟩

theorem getElem?_uint16s {numbers : List Nat} {i n : Nat} (found : numbers[i]? = some n) :
    (uint16s numbers)[2 * i]? = some (UInt8.ofNat (n / 256)) ∧
      (uint16s numbers)[2 * i + 1]? = some (UInt8.ofNat n) := by
  induction numbers generalizing i with
  | nil => simp at found
  | cons m numbers ih =>
    cases i with
    | zero =>
      rw [List.getElem?_cons_zero, Option.some.injEq] at found
      subst found
      exact ⟨rfl, rfl⟩
    | succ i => exact ih found

theorem getUint16_uint16s {numbers : List Nat} {i n : Nat} (found : numbers[i]? = some n) :
    getUint16 (uint16s numbers) (2 * i) = some (n % 65536) := by
  obtain ⟨high, low⟩ := getElem?_uint16s found
  simp only [getUint16, getUint8, high, low, Option.map_some, UInt8.toNat_ofNat', Option.some.injEq]
  omega

theorem getUint32_uint16s {numbers : List Nat} {i high low : Nat} (first : numbers[i]? = some high)
    (second : numbers[i + 1]? = some low) :
    getUint32 (uint16s numbers) (2 * i) = some (high % 65536 * 65536 + low % 65536) := by
  rw [getUint32, getUint16_uint16s first, show 2 * i + 2 = 2 * (i + 1) by omega,
    getUint16_uint16s second]

theorem length_uint16s (numbers : List Nat) : (uint16s numbers).length = 2 * numbers.length := by
  induction numbers with
  | nil => rfl
  | cons n numbers ih =>
    have cons : uint16s (n :: numbers) =
        [UInt8.ofNat (n / 256), UInt8.ofNat n] ++ uint16s numbers := rfl
    rw [cons, List.length_append, ih, List.length_cons]
    simp only [List.length_cons, List.length_nil]
    omega

theorem foldlM_ok {ε α β : Type*} {body : β → α → Except ε β} {items : List α}
    (round : ∀ out, ∀ a ∈ items, ∃ next, body out a = .ok next) (out : β) :
    ∃ all, items.foldlM body out = .ok all := by
  induction items generalizing out with
  | nil => exact ⟨out, rfl⟩
  | cons a items ih =>
    obtain ⟨next, first⟩ := round out a List.mem_cons_self
    rw [List.foldlM_cons, first]
    exact ih (fun out b hb => round out b (List.mem_cons_of_mem _ hb)) next

/-- A loop that adds to a set, where no round is cut short. -/
theorem foldlM_gathers {ε α β : Type*} {body : Finset β → α → Except ε (Finset β)}
    {adds : α → β → Prop} (items : List α)
    (round : ∀ out, ∀ a ∈ items, ∃ next, body out a = .ok next ∧
      ∀ c, c ∈ next ↔ c ∈ out ∨ adds a c) (out : Finset β) :
    ∃ all, items.foldlM body out = .ok all ∧ ∀ c, c ∈ all ↔ c ∈ out ∨ ∃ a ∈ items, adds a c := by
  induction items generalizing out with
  | nil => exact ⟨out, rfl, by simp⟩
  | cons a items ih =>
    obtain ⟨next, first, mem⟩ := round out a List.mem_cons_self
    obtain ⟨all, rest, mem'⟩ := ih (fun out b hb => round out b (List.mem_cons_of_mem _ hb)) next
    refine ⟨all, ?_, fun c => ?_⟩
    · rw [List.foldlM_cons, first]
      exact rest
    · rw [mem', mem]
      simp only [List.mem_cons, exists_eq_or_imp, or_assoc]

end Bytes
