import Mathlib.Data.List.AList

/-!
# Caches that forget the least recently used entry

A cache is an association list, the newest entry first. `add` makes room before it inserts, so a
cache without capacity takes nothing.
-/

namespace Lru

variable {κ α : Type*}

/-- The entry at the far end is the one that was used longest ago. -/
def popOldest (cache : AList fun _ : κ => α) : AList fun _ : κ => α :=
  ⟨cache.entries.dropLast, cache.nodupKeys.sublist (List.dropLast_sublist _)⟩

/-- Evict while the `n` entries leave no room; there is nothing to evict from an empty cache. -/
def evictLoop (capacity : Int) : Nat → (AList fun _ : κ => α) → Option (AList fun _ : κ => α)
  | 0, cache => if 0 < capacity then some cache else none
  | n + 1, cache =>
    if ((n + 1 : Nat) : Int) < capacity then some cache
    else evictLoop capacity n (popOldest cache)

def evict (capacity : Int) (cache : AList fun _ : κ => α) : Option (AList fun _ : κ => α) :=
  evictLoop capacity cache.entries.length cache

theorem evictLoop_isSome {capacity : Int} {n : Nat} {cache : AList fun _ : κ => α} :
    (evictLoop capacity n cache).isSome ↔ 1 ≤ capacity := by
  induction n generalizing cache with
  | zero =>
    simp only [evictLoop]
    split <;> simp <;> omega
  | succ n ih =>
    simp only [evictLoop]
    split
    · simp only [Option.isSome_some, true_iff]
      omega
    · exact ih

theorem evictLoop_entries {capacity : Int} {n : Nat} {cache rest : AList fun _ : κ => α}
    (h : evictLoop capacity n cache = some rest) : rest.entries.Sublist cache.entries := by
  induction n generalizing cache with
  | zero =>
    simp only [evictLoop, Option.ite_none_right_eq_some] at h
    rw [Option.some.inj h.2]
  | succ n ih =>
    simp only [evictLoop] at h
    split at h
    · rw [Option.some.inj h]
    · exact (ih h).trans (List.dropLast_sublist _)

variable [DecidableEq κ]

def add (capacity : Int) (key : κ) (value : α) (cache : AList fun _ : κ => α) :
    Option (AList fun _ : κ => α) :=
  (evict capacity cache).map (AList.insert key value)

/-- What is left after an eviction is as it was. -/
theorem lookup_of_evict {capacity : Int} {cache rest : AList fun _ : κ => α} {key : κ} {value : α}
    (h : evict capacity cache = some rest) (found : rest.lookup key = some value) :
    cache.lookup key = some value :=
  AList.mem_lookup_iff.mpr ((evictLoop_entries h).subset (AList.mem_lookup_iff.mp found))

theorem add_isSome {capacity : Int} {key : κ} {value : α} {cache : AList fun _ : κ => α} :
    (add capacity key value cache).isSome ↔ 1 ≤ capacity := by
  rw [add, Option.isSome_map]
  exact evictLoop_isSome

theorem lookup_add {capacity : Int} {key : κ} {value : α} {cache next : AList fun _ : κ => α}
    (h : add capacity key value cache = some next) : next.lookup key = some value := by
  obtain ⟨rest, _, rfl⟩ := Option.map_eq_some_iff.mp h
  exact AList.lookup_insert rest

/-- Adding an entry changes no other: it stays as it was, or it was evicted. -/
theorem lookup_of_add {capacity : Int} {key k : κ} {value v : α}
    {cache next : AList fun _ : κ => α} (h : add capacity key value cache = some next)
    (other : k ≠ key) (found : next.lookup k = some v) : cache.lookup k = some v := by
  obtain ⟨rest, evicted, rfl⟩ := Option.map_eq_some_iff.mp h
  rw [AList.lookup_insert_ne other] at found
  exact lookup_of_evict evicted found

end Lru
