import Mathlib.Algebra.BigOperators.Group.List.Basic
import Mathlib.Algebra.Group.Prod
import Mathlib.Data.List.Find
import Mathlib.Data.List.Nodup
import Mathlib.Tactic.Abel

/-!
# Keyed tables

A table is a list of rows in which no two rows have the same key, as a relational
table with a primary key or a unique index. The operations are those of SQL:
insert (which fails on a duplicate key), update and delete of the rows that satisfy
a condition, and insert-or-update on a key conflict. Sums over the rows say what each
operation adds or takes away.
-/

/-- Rows with pairwise different keys. -/
structure Table {ρ κ : Type*} (key : ρ → κ) where
  rows : List ρ
  unique : (rows.map key).Nodup

namespace Table

variable {ρ κ : Type*} {key : ρ → κ}

/-- The table without rows. -/
def empty : Table key := ⟨[], List.nodup_nil⟩

instance [DecidableEq ρ] : DecidableEq (Table key) := fun a b =>
  decidable_of_iff (a.rows = b.rows) (by cases a; cases b; simp)

theorem ext_rows {t u : Table key} (h : t.rows = u.rows) : t = u := by
  cases t
  cases u
  cases h
  rfl

theorem eq_of_key_eq (t : Table key) {r r' : ρ} (h : r ∈ t.rows) (h' : r' ∈ t.rows)
    (e : key r = key r') : r = r' :=
  List.inj_on_of_nodup_map t.unique h h' e

section
variable [DecidableEq κ]

/-- The row with key `k`. -/
def find? (t : Table key) (k : κ) : Option ρ := t.rows.find? fun r => key r = k

theorem find?_eq_some {t : Table key} {k : κ} {r : ρ} :
    t.find? k = some r ↔ r ∈ t.rows ∧ key r = k := by
  constructor
  · intro h
    exact ⟨List.mem_of_find?_eq_some h, by simpa using List.find?_some h⟩
  · rintro ⟨hr, hk⟩
    cases hf : t.find? k with
    | none => simpa [hk] using List.find?_eq_none.mp hf r hr
    | some r' =>
      have hk' : key r' = k := by simpa using List.find?_some hf
      rw [t.eq_of_key_eq (List.mem_of_find?_eq_some hf) hr (hk'.trans hk.symm)]

theorem find?_eq_none {t : Table key} {k : κ} :
    t.find? k = none ↔ ∀ r ∈ t.rows, key r ≠ k := by
  simp [find?, List.find?_eq_none]

theorem find?_of_mem {t : Table key} {r : ρ} (h : r ∈ t.rows) : t.find? (key r) = some r :=
  find?_eq_some.mpr ⟨h, rfl⟩

theorem isSome_find?_of_mem {t : Table key} {r : ρ} {k : κ} (h : r ∈ t.rows) (same : key r = k) :
    (t.find? k).isSome :=
  Option.isSome_iff_exists.mpr ⟨r, find?_eq_some.mpr ⟨h, same⟩⟩

theorem isSome_find?_mono {t t' : Table key} (stay : ∀ r ∈ t.rows, r ∈ t'.rows) {k : κ}
    (h : (t.find? k).isSome) : (t'.find? k).isSome := by
  obtain ⟨r, found⟩ := Option.isSome_iff_exists.mp h
  obtain ⟨mem, same⟩ := find?_eq_some.mp found
  exact isSome_find?_of_mem (stay r mem) same

/-- `INSERT`: fails when the key is taken. -/
def insert? (t : Table key) (r : ρ) : Option (Table key) :=
  if h : t.find? (key r) = none then
    some ⟨r :: t.rows, List.nodup_cons.mpr ⟨by
      rintro hk
      obtain ⟨x, hx, e⟩ := List.mem_map.mp hk
      exact find?_eq_none.mp h x hx e, t.unique⟩⟩
  else none

theorem insert?_eq_some {t u : Table key} {r : ρ} :
    t.insert? r = some u ↔ t.find? (key r) = none ∧ u.rows = r :: t.rows := by
  unfold insert?
  split
  · rename_i h
    simp only [h, true_and, Option.some.injEq]
    constructor
    · rintro rfl; rfl
    · intro hu; cases u; cases hu; rfl
  · rename_i h; simp [h]

theorem mem_insert? {t u : Table key} {r x : ρ} (h : t.insert? r = some u) :
    x ∈ u.rows ↔ x = r ∨ x ∈ t.rows := by
  rw [(insert?_eq_some.mp h).2, List.mem_cons]

theorem find?_insert? {t u : Table key} {r : ρ} (h : t.insert? r = some u) (k : κ) :
    u.find? k = if key r = k then some r else t.find? k := by
  simp only [find?, (insert?_eq_some.mp h).2, List.find?_cons]
  by_cases hk : key r = k <;> simp [hk]

end

/-- `UPDATE … SET change WHERE p`; a change keeps the key. -/
def updateWhere (t : Table key) (p : ρ → Bool) (change : ρ → ρ)
    (keeps : ∀ r, key (change r) = key r) : Table key :=
  ⟨t.rows.map fun r => if p r then change r else r, by
    have : (t.rows.map fun r => if p r then change r else r).map key = t.rows.map key := by
      rw [List.map_map]
      refine List.map_congr_left fun r _ => ?_
      by_cases h : p r <;> simp [h, keeps]
    rw [this]
    exact t.unique⟩

theorem rows_updateWhere (t : Table key) (p : ρ → Bool) (change : ρ → ρ)
    (keeps : ∀ r, key (change r) = key r) :
    (t.updateWhere p change keeps).rows = t.rows.map fun r => if p r then change r else r := rfl

theorem mem_updateWhere {t : Table key} {p : ρ → Bool} {change : ρ → ρ}
    (keeps : ∀ r, key (change r) = key r) {x : ρ} :
    x ∈ (t.updateWhere p change keeps).rows ↔ ∃ r ∈ t.rows, (if p r then change r else r) = x := by
  simp [rows_updateWhere]

/-- `DELETE … WHERE p`. -/
def deleteWhere (t : Table key) (p : ρ → Bool) : Table key :=
  ⟨t.rows.filter fun r => !p r, t.unique.sublist (List.filter_sublist.map key)⟩

theorem rows_deleteWhere (t : Table key) (p : ρ → Bool) :
    (t.deleteWhere p).rows = t.rows.filter fun r => !p r := rfl

@[simp] theorem mem_deleteWhere {t : Table key} {p : ρ → Bool} {x : ρ} :
    x ∈ (t.deleteWhere p).rows ↔ x ∈ t.rows ∧ p x = false := by
  simp [rows_deleteWhere]

theorem updateWhere_eq_self {t : Table key} {p : ρ → Bool} (none : ∀ r ∈ t.rows, p r = false)
    (change : ρ → ρ) (keeps : ∀ r, key (change r) = key r) : t.updateWhere p change keeps = t := by
  refine ext_rows ((List.map_congr_left fun r mem => ?_).trans (List.map_id t.rows))
  rw [none r mem]
  rfl

theorem deleteWhere_eq_self {t : Table key} {p : ρ → Bool} (none : ∀ r ∈ t.rows, p r = false) :
    t.deleteWhere p = t :=
  ext_rows (List.filter_eq_self.mpr fun r mem => by rw [none r mem]; rfl)

section
variable [DecidableEq κ]

theorem find?_updateWhere (t : Table key) (p : ρ → Bool) (change : ρ → ρ)
    (keeps : ∀ r, key (change r) = key r) (k : κ) :
    (t.updateWhere p change keeps).find? k =
      (t.find? k).map fun r => if p r then change r else r := by
  simp only [find?, rows_updateWhere, List.find?_map]
  congr 1
  congr 1
  funext r
  by_cases h : p r <;> simp [h, keeps]

theorem find?_deleteWhere (t : Table key) (p : ρ → Bool) (k : κ) :
    (t.deleteWhere p).find? k = (t.find? k).filter fun r => !p r := by
  cases h : t.find? k with
  | none =>
    rw [Option.filter_none, find?_eq_none]
    intro r hr
    exact find?_eq_none.mp h r (mem_deleteWhere.mp hr).1
  | some r =>
    obtain ⟨hr, hk⟩ := find?_eq_some.mp h
    cases hp : p r with
    | false =>
      rw [Option.filter_some, if_pos (by simp [hp])]
      exact find?_eq_some.mpr ⟨mem_deleteWhere.mpr ⟨hr, hp⟩, hk⟩
    | true =>
      rw [Option.filter_some, if_neg (by simp [hp])]
      rw [find?_eq_none]
      intro x hx hxk
      obtain ⟨hx, hpx⟩ := mem_deleteWhere.mp hx
      rw [t.eq_of_key_eq hx hr (hxk.trans hk.symm), hp] at hpx
      cases hpx

/-- `UPDATE` of the row with key `k`. -/
def update (t : Table key) (k : κ) (change : ρ → ρ) (keeps : ∀ r, key (change r) = key r) :
    Table key :=
  t.updateWhere (fun r => key r = k) change keeps

theorem find?_update (t : Table key) (k : κ) (change : ρ → ρ)
    (keeps : ∀ r, key (change r) = key r) (k' : κ) :
    (t.update k change keeps).find? k' =
      if k' = k then (t.find? k).map change else t.find? k' := by
  rw [update, find?_updateWhere]
  cases h : t.find? k' with
  | none =>
    by_cases e : k' = k
    · subst e; simp [h]
    · simp [e]
  | some r =>
    have hk := (find?_eq_some.mp h).2
    by_cases e : k' = k
    · subst e; simp [h, hk]
    · simp [hk, e]

theorem mem_update {t : Table key} {k : κ} {change : ρ → ρ}
    (keeps : ∀ r, key (change r) = key r) {x : ρ} :
    x ∈ (t.update k change keeps).rows ↔
      ∃ r ∈ t.rows, (if key r = k then change r else r) = x := by
  simp [update, mem_updateWhere]

theorem mem_update_of_mem {t : Table key} {k : κ} {change : ρ → ρ} {r : ρ} (h : r ∈ t.rows)
    (keeps : ∀ r, key (change r) = key r := by exact fun _ => rfl) :
    (if key r = k then change r else r) ∈ (t.update k change keeps).rows :=
  (mem_update keeps).mpr ⟨r, h, rfl⟩

/-- The rows with other keys are as they were. -/
theorem mem_update_of_ne {t : Table key} {k : κ} {change : ρ → ρ} {x : ρ} (other : key x ≠ k)
    (keeps : ∀ r, key (change r) = key r := by exact fun _ => rfl) :
    x ∈ (t.update k change keeps).rows ↔ x ∈ t.rows := by
  rw [mem_update]
  constructor
  · rintro ⟨r, hr, rfl⟩
    by_cases same : key r = k
    · rw [if_pos same, keeps] at other
      exact absurd same other
    · rwa [if_neg same]
  · intro hx
    exact ⟨x, hx, if_neg other⟩

/-- An update replaces the row with the key. -/
theorem mem_update_of_find? {t : Table key} {k : κ} {r : ρ} (h : t.find? k = some r)
    {change : ρ → ρ} (keeps : ∀ r, key (change r) = key r) {x : ρ} :
    x ∈ (t.update k change keeps).rows ↔ x = change r ∨ x ∈ t.rows ∧ key x ≠ k := by
  obtain ⟨hr, hk⟩ := find?_eq_some.mp h
  rw [mem_update]
  constructor
  · rintro ⟨y, hy, rfl⟩
    by_cases same : key y = k
    · rw [if_pos same, t.eq_of_key_eq hy hr (same.trans hk.symm)]
      exact .inl rfl
    · rw [if_neg same]
      exact .inr ⟨hy, same⟩
  · rintro (rfl | ⟨hx, other⟩)
    · exact ⟨r, hr, if_pos hk⟩
    · exact ⟨x, hx, if_neg other⟩

/-- An update that does not change what a search looks for finds the same row. -/
theorem find?_rows_update (t : Table key) (k : κ) (change : ρ → ρ)
    (keeps : ∀ r, key (change r) = key r) (search : ρ → Bool)
    (same : ∀ r ∈ t.rows, key r = k → search (change r) = search r) :
    (t.update k change keeps).rows.find? search =
      (t.rows.find? search).map fun r => if key r = k then change r else r := by
  simp only [update, rows_updateWhere, decide_eq_true_eq, List.find?_map]
  congr 1
  refine List.find?_congr fun r hr => ?_
  rw [Function.comp]
  split
  · exact same r hr ‹_›
  · rfl

/-- An update only depends on what it does to the row. -/
theorem update_congr {t : Table key} {k : κ} {change change' : ρ → ρ}
    {keeps : ∀ r, key (change r) = key r} {keeps' : ∀ r, key (change' r) = key r}
    (h : ∀ r, t.find? k = some r → change r = change' r) :
    t.update k change keeps = t.update k change' keeps' := by
  refine ext_rows (List.map_congr_left fun r hr => ?_)
  by_cases hk : key r = k
  · simp [hk, h r (find?_eq_some.mpr ⟨hr, hk⟩)]
  · simp [hk]

/-- `INSERT … ON CONFLICT (key) DO UPDATE SET change`. -/
def upsert (t : Table key) (r : ρ) (change : ρ → ρ) (keeps : ∀ r, key (change r) = key r) :
    Table key :=
  (t.insert? r).getD (t.update (key r) change keeps)

theorem find?_upsert (t : Table key) (r : ρ) (change : ρ → ρ)
    (keeps : ∀ r, key (change r) = key r) (k : κ) :
    (t.upsert r change keeps).find? k =
      if k = key r then some (((t.find? k).map change).getD r) else t.find? k := by
  unfold upsert
  cases h : t.insert? r with
  | some u =>
    have free := (insert?_eq_some.mp h).1
    rw [Option.getD_some, find?_insert? h]
    by_cases e : k = key r
    · subst e; simp [free]
    · simp [e, Ne.symm e]
  | none =>
    have taken : t.find? (key r) ≠ none := fun free => by simp [insert?, free] at h
    obtain ⟨x, hx⟩ := Option.ne_none_iff_exists'.mp taken
    rw [Option.getD_none, find?_update]
    by_cases e : k = key r
    · subst e; simp [hx]
    · simp [e]

theorem upsert_of_find?_none {t : Table key} {r : ρ} (h : t.find? (key r) = none)
    (change : ρ → ρ) (keeps : ∀ r, key (change r) = key r) :
    (t.upsert r change keeps).rows = r :: t.rows := by
  simp [upsert, insert?, h]

theorem upsert_of_find?_some {t : Table key} {r x : ρ} (h : t.find? (key r) = some x)
    (change : ρ → ρ) (keeps : ∀ r, key (change r) = key r) :
    t.upsert r change keeps = t.update (key r) change keeps := by
  simp [upsert, insert?, h]

end

/-! ## Sums over the rows -/

section
variable {M : Type*} [AddCommGroup M]

/-- The sum of a weight over all rows. -/
def total (t : Table key) (weight : ρ → M) : M := (t.rows.map weight).sum

theorem total_congr (t : Table key) {v w : ρ → M} (h : ∀ r ∈ t.rows, v r = w r) :
    t.total v = t.total w := by
  unfold total
  rw [List.map_congr_left h]

theorem total_updateWhere (t : Table key) (p : ρ → Bool) (change : ρ → ρ)
    (keeps : ∀ r, key (change r) = key r) (weight : ρ → M) :
    (t.updateWhere p change keeps).total weight =
      t.total fun r => if p r then weight (change r) else weight r := by
  simp only [total, rows_updateWhere, List.map_map]
  refine congrArg List.sum (List.map_congr_left fun r _ => ?_)
  by_cases h : p r <;> simp [h]

theorem total_deleteWhere (t : Table key) (p : ρ → Bool) (weight : ρ → M) :
    (t.deleteWhere p).total weight = t.total fun r => if p r then 0 else weight r := by
  unfold total
  rw [rows_deleteWhere]
  induction t.rows with
  | nil => rfl
  | cons r rest ih => cases h : p r <;> simp [h, ih]

variable [DecidableEq κ]

theorem total_insert? {t u : Table key} {r : ρ} (h : t.insert? r = some u) (weight : ρ → M) :
    u.total weight = weight r + t.total weight := by
  simp [total, (insert?_eq_some.mp h).2]

omit [DecidableEq κ] in
/-- Two weights that differ only on one row differ by that row. -/
theorem total_eq_add_of_key {t : Table key} {r : ρ} (hr : r ∈ t.rows) {v w : ρ → M}
    (same : ∀ x ∈ t.rows, key x ≠ key r → v x = w x) :
    t.total v = t.total w + (v r - w r) := by
  have split : ∀ rows : List ρ, (rows.map key).Nodup → r ∈ rows →
      (∀ x ∈ rows, key x ≠ key r → v x = w x) →
      (rows.map v).sum = (rows.map w).sum + (v r - w r) := by
    intro rows nodup mem same
    induction rows with
    | nil => cases mem
    | cons x rest ih =>
      obtain ⟨fresh, nodup⟩ := List.nodup_cons.mp nodup
      simp only [List.map_cons, List.sum_cons]
      rcases List.mem_cons.mp mem with rfl | mem
      · have rest_eq : rest.map v = rest.map w := by
          refine List.map_congr_left fun y hy => same y (List.mem_cons_of_mem _ hy) fun e => ?_
          exact fresh (e ▸ List.mem_map_of_mem hy)
        rw [rest_eq]
        abel
      · have hx : v x = w x := same x List.mem_cons_self fun e =>
          fresh (e ▸ List.mem_map_of_mem mem)
        rw [hx, ih nodup mem fun y hy => same y (List.mem_cons_of_mem _ hy)]
        abel
  exact split t.rows t.unique hr same

theorem total_update {t : Table key} {k : κ} {r : ρ} (h : t.find? k = some r)
    (change : ρ → ρ) (keeps : ∀ r, key (change r) = key r) (weight : ρ → M) :
    (t.update k change keeps).total weight = t.total weight + (weight (change r) - weight r) := by
  obtain ⟨hr, hk⟩ := find?_eq_some.mp h
  rw [update, total_updateWhere, total_eq_add_of_key hr (w := weight)]
  · simp [hk]
  · intro x _ hx
    rw [hk] at hx
    simp [hx]

end

end Table
