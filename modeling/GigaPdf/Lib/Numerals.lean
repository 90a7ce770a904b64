import Mathlib.Data.List.Basic
import Mathlib.Algebra.Order.Ring.Int

/-!
# Numerals

Two ways to write a number without a zero. An additive numeral takes the amounts of a falling table
as often as they fit, and is read with a sign before a greater one counting against it. A bijective
numeral of base `b` has the digits 1 to `b`.
-/

namespace Numerals

variable {σ : Type*}

/-! ## Additive numerals -/

/-- A sign counts against the number when a greater one follows. -/
def signed (value : σ → Nat) (a : σ) (next : Option σ) : Int :=
  if next.any (value a < value ·) then -(value a : Int) else value a

def read (value : σ → Nat) : List σ → Int
  | [] => 0
  | a :: signs => signed value a signs.head? + read value signs

structure Entry (σ : Type*) where
  amount : Nat
  signs : List σ

/-- Every amount as often as it fits into what is left. -/
def word : List (Entry σ) → Nat → List σ
  | [], _ => []
  | e :: table, n => (List.replicate (n / e.amount) e.signs).flatten ++ word table (n % e.amount)

/-- What no amount fits into. -/
def left : List (Entry σ) → Nat → Nat
  | [], n => n
  | e :: table, n => left table (n % e.amount)

/-- No sign of `later` is taken for one that the last sign of `e` counts against. -/
def Falls (value : σ → Nat) (e later : Entry σ) : Prop :=
  ∀ a ∈ e.signs.getLast?, ∀ b ∈ later.signs.head?, value b ≤ value a

/-- The signs of every entry are read as its amount, whichever entries follow. -/
structure Proper (value : σ → Nat) (table : List (Entry σ)) : Prop where
  nonempty : ∀ e ∈ table, e.signs ≠ []
  amount : ∀ e ∈ table, read value e.signs = e.amount
  again : ∀ e ∈ table, Falls value e e
  falls : table.Pairwise (Falls value)

variable {value : σ → Nat} {table : List (Entry σ)}

theorem read_append {u w : List σ} (nonempty : u ≠ [])
    (falls : ∀ a ∈ u.getLast?, ∀ b ∈ w.head?, value b ≤ value a) :
    read value (u ++ w) = read value u + read value w := by
  induction u with
  | nil => exact absurd rfl nonempty
  | cons a u ih =>
    cases u with
    | nil =>
      have none : w.head?.any (value a < value ·) = false := by
        cases here : w.head? with
        | none => rfl
        | some b => simpa using falls a rfl b here
      simp [read, signed, none]
    | cons b u =>
      have rest := ih (List.cons_ne_nil b u) (fun x hx => falls x (by simpa using hx))
      change signed value a (some b) + read value (b :: u ++ w) =
        signed value a (some b) + read value (b :: u) + read value w
      rw [rest, Int.add_assoc]

theorem mem_head_word {n : Nat} {a : σ} (first : a ∈ (word table n).head?) :
    ∃ e ∈ table, a ∈ e.signs.head? := by
  induction table generalizing n with
  | nil => cases first
  | cons e table ih =>
    rw [word] at first
    cases times : n / e.amount with
    | zero =>
      rw [times, List.replicate_zero, List.flatten_nil, List.nil_append] at first
      obtain ⟨f, mem, here⟩ := ih first
      exact ⟨f, List.mem_cons_of_mem e mem, here⟩
    | succ k =>
      rw [times, List.replicate_succ, List.flatten_cons, List.append_assoc, List.head?_append] at first
      cases here : e.signs.head? with
      | some b =>
        rw [here, Option.some_or] at first
        exact ⟨e, List.mem_cons_self, by rw [here]; exact first⟩
      | none =>
        have none : e.signs = [] := List.head?_eq_none_iff.mp here
        rw [none, List.flatten_replicate_nil, List.nil_append, List.head?_nil, Option.none_or] at first
        obtain ⟨f, mem, found⟩ := ih first
        exact ⟨f, List.mem_cons_of_mem e mem, found⟩

/-- An entry that is taken several times before what falls behind it. -/
theorem read_replicate_append {e : Entry σ} {w : List σ} (nonempty : e.signs ≠ [])
    (amount : read value e.signs = e.amount) (again : Falls value e e)
    (falls : ∀ a ∈ e.signs.getLast?, ∀ b ∈ w.head?, value b ≤ value a) (k : Nat) :
    read value ((List.replicate k e.signs).flatten ++ w) = k * e.amount + read value w := by
  induction k with
  | zero => simp
  | succ k ih =>
    rw [List.replicate_succ, List.flatten_cons, List.append_assoc, read_append nonempty, ih, amount]
    · grind
    · intro a ha b hb
      cases k with
      | zero => exact falls a ha b (by simpa using hb)
      | succ k =>
        rw [List.replicate_succ, List.flatten_cons, List.append_assoc, List.head?_append] at hb
        cases here : e.signs.head? with
        | none => exact absurd (List.head?_eq_none_iff.mp here) nonempty
        | some c =>
          rw [here, Option.some_or] at hb
          exact again a ha b (by rw [here]; exact hb)

/-- An additive numeral is read as the number but for what is left. -/
theorem read_word (h : Proper value table) (n : Nat) :
    read value (word table n) + left table n = n := by
  induction table generalizing n with
  | nil => simp [word, read, left]
  | cons e table ih =>
    have falls := List.pairwise_cons.mp h.falls
    have tail : Proper value table :=
      ⟨fun f hf => h.nonempty f (List.mem_cons_of_mem e hf),
        fun f hf => h.amount f (List.mem_cons_of_mem e hf),
        fun f hf => h.again f (List.mem_cons_of_mem e hf), falls.2⟩
    have behind : ∀ a ∈ e.signs.getLast?, ∀ b ∈ (word table (n % e.amount)).head?,
        value b ≤ value a := by
      intro a ha b hb
      obtain ⟨f, mem, first⟩ := mem_head_word hb
      exact falls.1 f mem a ha b first
    have rest := ih tail (n % e.amount)
    have split := Nat.div_add_mod' n e.amount
    rw [word, left, read_replicate_append (h.nonempty e List.mem_cons_self)
      (h.amount e List.mem_cons_self) (h.again e List.mem_cons_self) behind, Int.add_assoc, rest]
    exact_mod_cast split

/-! ## Bijective numerals -/

/-- The digits less one, the last digit first. -/
def digitsRev (b n : Nat) : List Nat :=
  if n = 0 then [] else (n - 1) % b :: digitsRev b ((n - 1) / b)
termination_by n
decreasing_by
  have := Nat.div_le_self (n - 1) b
  omega

/-- The number of the digits less one, the last digit first. -/
def valueRev (b : Nat) : List Nat → Nat
  | [] => 0
  | d :: digits => b * valueRev b digits + (d + 1)

theorem digitsRev_zero (b : Nat) : digitsRev b 0 = [] := by
  rw [digitsRev, if_pos rfl]

theorem digitsRev_succ (b n : Nat) : digitsRev b (n + 1) = n % b :: digitsRev b (n / b) := by
  rw [digitsRev, if_neg (Nat.succ_ne_zero n), Nat.add_sub_cancel]

theorem valueRev_digitsRev (b n : Nat) : valueRev b (digitsRev b n) = n := by
  induction n using Nat.strong_induction_on with
  | _ n ih =>
    cases n with
    | zero => rw [digitsRev_zero, valueRev]
    | succ n =>
      have smaller := Nat.div_le_self n b
      have split := Nat.div_add_mod n b
      rw [digitsRev_succ, valueRev, ih (n / b) (by omega)]
      omega

theorem digitsRev_valueRev {b : Nat} {digits : List Nat} (below : ∀ d ∈ digits, d < b) :
    digitsRev b (valueRev b digits) = digits := by
  induction digits with
  | nil => rw [valueRev, digitsRev_zero]
  | cons d digits ih =>
    have small := below d List.mem_cons_self
    have positive : 0 < b := by omega
    rw [valueRev, ← Nat.add_assoc, digitsRev_succ, Nat.mul_add_mod, Nat.mod_eq_of_lt small,
      Nat.mul_add_div positive, Nat.div_eq_of_lt small, Nat.add_zero,
      ih fun d hd => below d (List.mem_cons_of_mem _ hd)]

theorem digitsRev_lt {b : Nat} (positive : 0 < b) (n : Nat) : ∀ d ∈ digitsRev b n, d < b := by
  induction n using Nat.strong_induction_on with
  | _ n ih =>
    cases n with
    | zero => rw [digitsRev_zero]; nofun
    | succ n =>
      have smaller := Nat.div_le_self n b
      rw [digitsRev_succ]
      exact List.forall_mem_cons.mpr ⟨Nat.mod_lt n positive, ih (n / b) (by omega)⟩

end Numerals
