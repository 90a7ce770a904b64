import GigaPdf.Lib.Upsert
import Mathlib.Data.List.Induction

/-!
# A map that keeps the last of each key

Entries are set one after the other, each under its own key. A key keeps the place where it was set
first, and holds what was set last.
-/

namespace LastWriter

open Upsert

variable {α κ : Type*} [DecidableEq κ] (key : α → κ)

def set (map : List α) (a : α) : List α :=
  upsert (fun b => key b = key a) (fun _ => a) a map

def setAll (map items : List α) : List α := items.foldl (set key) map

/-- The last of some entries under a key. -/
def lastOf (items : List α) (k : κ) : Option α := items.reverse.find? fun a => key a = k

variable {key} {map items : List α}

theorem lastOf_append_singleton (a : α) (k : κ) :
    lastOf key (items ++ [a]) k = if key a = k then some a else lastOf key items k := by
  rw [lastOf, List.reverse_append, List.reverse_singleton, List.singleton_append, lastOf]
  split
  · rename_i same
    exact List.find?_cons_of_pos (by simpa using same)
  · rename_i other
    exact List.find?_cons_of_neg (by simpa using other)

theorem key_of_lastOf {k : κ} {a : α} (last : lastOf key items k = some a) : key a = k := by
  simpa using List.find?_some last

theorem mem_of_lastOf {k : κ} {a : α} (last : lastOf key items k = some a) : a ∈ items :=
  List.mem_reverse.mp (List.mem_of_find?_eq_some last)

theorem lastOf_eq_none_iff {k : κ} : lastOf key items k = none ↔ k ∉ items.map key := by
  simp [lastOf]

theorem nodup_set (nodup : (map.map key).Nodup) (a : α) : ((set key map a).map key).Nodup :=
  nodup_map_upsert nodup (fun _ same => (of_decide_eq_true same).symm) fun _ _ other =>
    of_decide_eq_false other

theorem mem_set (nodup : (map.map key).Nodup) {a b : α} :
    b ∈ set key map a ↔ b = a ∨ (b ∈ map ∧ key b ≠ key a) := by
  constructor
  · intro mem
    by_cases same : key b = key a
    · exact .inl (List.inj_on_of_nodup_map (nodup_set nodup a) mem
        (mem_upsert_self fun _ => rfl) same)
    · obtain old | ⟨-, -, eq⟩ | ⟨-, eq⟩ := mem_upsert mem
      · exact .inr ⟨old, same⟩
      · exact .inl eq
      · exact .inl eq
  · rintro (rfl | ⟨old, other⟩)
    · exact mem_upsert_self fun _ => rfl
    · exact mem_upsert_of_not old (decide_eq_false other)

theorem keys_set {a : α} (there : key a ∈ map.map key) :
    (set key map a).map key = map.map key := by
  obtain ⟨b, mem, same⟩ := List.mem_map.mp there
  cases found : map.find? fun b => decide (key b = key a) with
  | none => exact absurd same (by simpa using List.find?_eq_none.mp found b mem)
  | some c =>
    have same : key c = key a := by simpa using List.find?_some found
    exact map_upsert_of_find?_some found same.symm

theorem setAll_append_singleton (a : α) :
    setAll key map (items ++ [a]) = set key (setAll key map items) a := by
  rw [setAll, List.foldl_append]
  rfl

theorem nodup_setAll (nodup : (map.map key).Nodup) : ((setAll key map items).map key).Nodup := by
  induction items using List.reverseRecOn with
  | nil => exact nodup
  | append_singleton items a ih =>
    rw [setAll_append_singleton]
    exact nodup_set ih a

theorem mem_setAll (nodup : (map.map key).Nodup) {b : α} :
    b ∈ setAll key map items ↔
      lastOf key items (key b) = some b ∨ (b ∈ map ∧ key b ∉ items.map key) := by
  induction items using List.reverseRecOn with
  | nil => simp [setAll, lastOf]
  | append_singleton items a ih =>
    rw [setAll_append_singleton, mem_set (nodup_setAll nodup), ih, lastOf_append_singleton]
    by_cases same : key a = key b
    · simp [same, eq_comm]
    · simp only [if_neg same, List.map_append, List.mem_append, List.map_cons, List.map_nil,
        List.mem_singleton, Ne.symm same, or_false, not_false_eq_true, and_true, ne_eq]
      refine or_iff_right ?_
      rintro rfl
      exact same rfl

theorem keys_setAll (there : ∀ a ∈ items, key a ∈ map.map key) :
    (setAll key map items).map key = map.map key := by
  induction items using List.reverseRecOn with
  | nil => rfl
  | append_singleton items a ih =>
    have before := ih fun b mem => there b (List.mem_append_left _ mem)
    rw [setAll_append_singleton, keys_set, before]
    rw [before]
    exact there a (List.mem_append_right _ (List.mem_singleton_self a))

omit [DecidableEq κ] in
theorem eq_of_keys_eq {l m : List α} (keys : l.map key = m.map key) (nodup : (m.map key).Nodup)
    (sub : ∀ a ∈ l, a ∈ m) : l = m := by
  induction l generalizing m with
  | nil => exact (List.map_eq_nil_iff.mp keys.symm).symm
  | cons a l ih =>
    cases m with
    | nil => cases keys
    | cons b m =>
      rw [List.map_cons, List.map_cons, List.cons.injEq] at keys
      have same : a = b := List.inj_on_of_nodup_map nodup (sub a List.mem_cons_self)
        List.mem_cons_self keys.1
      obtain ⟨absent, rest⟩ := List.nodup_cons.mp nodup
      have tail := ih keys.2 rest fun c mem => by
        rcases List.mem_cons.mp (sub c (List.mem_cons_of_mem _ mem)) with rfl | mem'
        · exact absurd (keys.2 ▸ List.mem_map_of_mem mem) absent
        · exact mem'
      rw [same, tail]

/-- Entries with different keys are a map. -/
theorem setAll_nil (nodup : (items.map key).Nodup) : setAll key [] items = items := by
  induction items using List.reverseRecOn with
  | nil => rfl
  | append_singleton items a ih =>
    rw [List.map_append, List.nodup_append] at nodup
    rw [setAll_append_singleton, ih nodup.1]
    refine upsert_of_find?_none (List.find?_eq_none.mpr fun b mem same => ?_)
    exact nodup.2.2 (key b) (List.mem_map_of_mem mem) (key a) (List.mem_singleton_self _)
      (of_decide_eq_true same)

/-- Setting what a map holds already changes nothing. -/
theorem setAll_eq_self (nodup : (map.map key).Nodup)
    (holds : ∀ a ∈ items, ∀ b, lastOf key items (key a) = some b → b ∈ map) :
    setAll key map items = map := by
  refine eq_of_keys_eq (keys_setAll fun a mem => ?_) nodup fun b mem => ?_
  · cases last : lastOf key items (key a) with
    | none => exact absurd (List.mem_map_of_mem mem) (lastOf_eq_none_iff.mp last)
    | some b => exact List.mem_map.mpr ⟨b, holds a mem b last, key_of_lastOf last⟩
  · obtain last | ⟨old, -⟩ := (mem_setAll nodup).mp mem
    · exact holds b (mem_of_lastOf last) b last
    · exact old

end LastWriter
