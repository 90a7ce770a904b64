import GigaPdf.Lib.Table
import GigaPdf.Lib.Tally
import Mathlib.Algebra.BigOperators.Group.Finset.Basic
import Mathlib.Algebra.Order.BigOperators.Group.List
import Mathlib.Algebra.Order.Group.Defs

/-!
# Ledgers

Items of a table are charged to accounts, each with a weight. What is recorded on an
account is the sum of the weights of its items. The lemmas say what each table
operation posts to the recorded sums, in the form in which a running balance is moved.
-/

namespace Ledger

variable {ρ κ α M : Type*} {key : ρ → κ} [DecidableEq α] [AddCommGroup M]

/-- The sum of the weights of the items on an account. -/
def recorded (items : Table key) (account : ρ → α) (weight : ρ → M) (a : α) : M :=
  items.total fun r => if account r = a then weight r else 0

/-- Move the balance of one account. -/
def post (balance : α → M) (a : α) (w : M) : α → M :=
  fun x => balance x + if a = x then w else 0

/-- Sum of the weights of the listed items that are on an account. -/
def charges (account : ρ → α) (weight : ρ → M) (items : List ρ) (a : α) : M :=
  (items.map fun r => if account r = a then weight r else 0).sum

@[simp] theorem charges_nil (account : ρ → α) (weight : ρ → M) (a : α) :
    charges account weight [] a = 0 := rfl

theorem charges_cons (account : ρ → α) (weight : ρ → M) (r : ρ) (items : List ρ) (a : α) :
    charges account weight (r :: items) a =
      (if account r = a then weight r else 0) + charges account weight items a := by
  simp [charges]

/-- Two moves of one account are one. -/
theorem post_post (balance : α → M) (a : α) (v w : M) :
    post (post balance a v) a w = post balance a (v + w) := by
  funext x
  by_cases h : a = x <;> simp [post, h, add_assoc]

theorem post_zero (balance : α → M) (a : α) : post balance a 0 = balance := by
  funext x
  simp [post]

section
variable [DecidableEq κ]

theorem recorded_insert? {t u : Table key} {r : ρ} (h : t.insert? r = some u)
    (account : ρ → α) (weight : ρ → M) :
    recorded u account weight = post (recorded t account weight) (account r) (weight r) := by
  funext a
  rw [recorded, Table.total_insert? h, post, add_comm]
  rfl

theorem recorded_update {t : Table key} {k : κ} {r : ρ} (h : t.find? k = some r)
    (change : ρ → ρ) (keeps : ∀ r, key (change r) = key r) (account : ρ → α) (weight : ρ → M) :
    recorded (t.update k change keeps) account weight =
      post (post (recorded t account weight) (account r) (-weight r))
        (account (change r)) (weight (change r)) := by
  funext a
  rw [recorded, Table.total_update h]
  simp only [post, recorded]
  by_cases hr : account r = a <;> simp [hr, sub_eq_add_neg]
  abel

end

/-- A change that keeps account and weight keeps what is recorded. -/
theorem recorded_updateWhere_same (t : Table key) (p : ρ → Bool) (change : ρ → ρ)
    (keeps : ∀ r, key (change r) = key r) {account : ρ → α} {weight : ρ → M}
    (haccount : ∀ r, account (change r) = account r) (hweight : ∀ r, weight (change r) = weight r) :
    recorded (t.updateWhere p change keeps) account weight = recorded t account weight := by
  funext a
  rw [recorded, Table.total_updateWhere]
  refine Table.total_congr t fun r _ => ?_
  simp only [haccount, hweight, ite_self]

/-- A change of the items that satisfy `p` takes their charges off and adds the new ones. -/
theorem recorded_updateWhere (t : Table key) (p : ρ → Bool) (change : ρ → ρ)
    (keeps : ∀ r, key (change r) = key r) (account : ρ → α) (weight : ρ → M) (a : α) :
    recorded (t.updateWhere p change keeps) account weight a =
      recorded t account weight a - charges account weight (t.rows.filter p) a +
        charges account weight ((t.rows.filter p).map change) a := by
  rw [recorded, Table.total_updateWhere]
  simp only [recorded, Table.total]
  induction t.rows with
  | nil => simp
  | cons r rest ih =>
    simp only [List.map_cons, List.sum_cons, ih]
    by_cases hp : p r
    · simp only [List.filter_cons, hp, if_true, List.map_cons, charges_cons]
      abel
    · simp only [List.filter_cons, hp, Bool.false_eq_true, if_false]
      abel

theorem recorded_deleteWhere (t : Table key) (p : ρ → Bool) (account : ρ → α) (weight : ρ → M)
    (a : α) :
    recorded (t.deleteWhere p) account weight a =
      recorded t account weight a - charges account weight (t.rows.filter p) a := by
  rw [recorded, Table.total_deleteWhere]
  simp only [recorded, Table.total]
  induction t.rows with
  | nil => simp
  | cons r rest ih =>
    simp only [List.map_cons, List.sum_cons, ih]
    by_cases hp : p r
    · simp only [List.filter_cons, hp, if_true, charges_cons]
      abel
    · simp only [List.filter_cons, hp, Bool.false_eq_true, if_false]
      abel

/-- Items on other accounts charge nothing. -/
theorem charges_of_ne {account : ρ → α} {items : List ρ} {a : α}
    (h : ∀ r ∈ items, account r ≠ a) (weight : ρ → M) : charges account weight items a = 0 :=
  List.sum_eq_zero fun m hm => by
    obtain ⟨r, hr, rfl⟩ := List.mem_map.mp hm
    exact if_neg (h r hr)

/-- What the other items of a list do not add to an account, some of them charge alone. -/
theorem charges_of_subset [DecidableEq ρ] {account : ρ → α} {weight : ρ → M} {items some : List ρ}
    (nodup : items.Nodup) (some_nodup : some.Nodup) (subset : some ⊆ items) {a : α}
    (rest : ∀ r ∈ items, r ∉ some → account r = a → weight r = 0) :
    charges account weight items a = charges account weight some a := by
  rw [charges, charges, ← List.sum_toFinset _ nodup, ← List.sum_toFinset _ some_nodup]
  refine (Finset.sum_subset (fun r hr => ?_) fun r hr other => ?_).symm
  · exact List.mem_toFinset.mpr (subset (List.mem_toFinset.mp hr))
  · rw [List.mem_toFinset] at hr other
    split
    · exact rest r hr other ‹_›
    · rfl

theorem charges_eq_zero {account : ρ → α} {weight : ρ → M} {items : List ρ}
    (h : ∀ r ∈ items, weight r = 0) (a : α) : charges account weight items a = 0 :=
  List.sum_eq_zero fun m hm => by
    obtain ⟨r, hr, rfl⟩ := List.mem_map.mp hm
    rw [h r hr, ite_self]

/-- Items without weight charge nothing. -/
theorem charges_filter {account : ρ → α} {weight : ρ → M} {items : List ρ} {p : ρ → Bool}
    (h : ∀ r ∈ items, p r = false → weight r = 0) (a : α) :
    charges account weight (items.filter p) a = charges account weight items a := by
  induction items with
  | nil => rfl
  | cons r rest ih =>
    obtain ⟨hr, hrest⟩ := List.forall_mem_cons.mp h
    cases hp : p r with
    | true => simp only [List.filter_cons, hp, if_true, charges_cons, ih hrest]
    | false => simp [hp, charges_cons, hr hp, ih hrest]

section
variable [DecidableEq κ]

omit [DecidableEq κ] in
theorem recorded_delete {t : Table key} {r : ρ} (hr : r ∈ t.rows) {p : ρ → Bool}
    (hp : ∀ x, p x = true ↔ key x = key r) (account : ρ → α) (weight : ρ → M) :
    recorded (t.deleteWhere p) account weight =
      post (recorded t account weight) (account r) (-weight r) := by
  funext a
  rw [recorded, Table.total_deleteWhere, Table.total_eq_add_of_key hr
    (w := fun r => if account r = a then weight r else 0)]
  · rw [if_pos ((hp r).mpr rfl)]
    by_cases ha : account r = a <;> simp [post, recorded, ha]
  · intro x _ hx
    rw [if_neg]
    exact fun h => hx ((hp x).mp h)

end

section
variable [PartialOrder M] [IsOrderedAddMonoid M]

theorem charges_nonneg {account : ρ → α} {weight : ρ → M} {items : List ρ}
    (h : ∀ r ∈ items, 0 ≤ weight r) (a : α) : 0 ≤ charges account weight items a := by
  refine List.sum_nonneg fun m hm => ?_
  obtain ⟨r, hr, rfl⟩ := List.mem_map.mp hm
  split
  · exact h r hr
  · exact le_rfl

theorem recorded_nonneg {items : Table key} {account : ρ → α} {weight : ρ → M}
    (h : ∀ r ∈ items.rows, 0 ≤ weight r) (a : α) : 0 ≤ recorded items account weight a :=
  charges_nonneg h a

/-- Some of the items weigh at most as much as all of them. -/
theorem charges_filter_le {items : Table key} {account : ρ → α} {weight : ρ → M}
    (h : ∀ r ∈ items.rows, 0 ≤ weight r) (p : ρ → Bool) (a : α) :
    charges account weight (items.rows.filter p) a ≤ recorded items account weight a := by
  have rest : 0 ≤ recorded (items.deleteWhere p) account weight a :=
    recorded_nonneg (fun r hr => h r (Table.mem_deleteWhere.mp hr).1) a
  rw [recorded_deleteWhere] at rest
  exact sub_nonneg.mp rest

end

end Ledger
