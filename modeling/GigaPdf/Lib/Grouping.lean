import GigaPdf.Lib.Upsert
import Mathlib.Data.List.Dedup
import Mathlib.Data.List.Induction

/-!
# Grouping

The items of a list under their keys, the keys in the order in which they come first; an item
without a key is in no group. Where actions under different keys commute, acting group by group does
what acting item by item does.
-/

namespace Grouping

open Upsert

variable {κ α σ : Type*} [DecidableEq κ] (key : α → Option κ)

/-- The item goes to the group of the key. -/
def enter (k : κ) (a : α) (groups : List (κ × List α)) : List (κ × List α) :=
  upsert (fun g => g.1 = k) (fun g => (k, g.2 ++ [a])) (k, [a]) groups

def group (l : List α) : List (κ × List α) :=
  l.foldl (fun groups a =>
    match key a with
    | none => groups
    | some k => enter k a groups) []

variable {key}

theorem group_append_singleton (l : List α) (a : α) :
    group key (l ++ [a]) =
      match key a with
      | none => group key l
      | some k => enter k a (group key l) := by
  rw [group, List.foldl_append]
  rfl

theorem group_of_none {l : List α} {a : α} (absent : key a = none) :
    group key (l ++ [a]) = group key l := by
  rw [group_append_singleton, absent]

theorem group_of_some {l : List α} {a : α} {k : κ} (found : key a = some k) :
    group key (l ++ [a]) = enter k a (group key l) := by
  rw [group_append_singleton, found]

theorem nodup_keys (l : List α) : ((group key l).map Prod.fst).Nodup := by
  induction l using List.reverseRecOn with
  | nil => exact .nil
  | append_singleton l a ih =>
    cases found : key a with
    | none => rwa [group_of_none found]
    | some k =>
      rw [group_of_some found]
      apply nodup_map_upsert ih
      · intro g here
        exact (of_decide_eq_true here).symm
      · intro g _ other
        exact of_decide_eq_false other

/-- Every item with a key is in one group. -/
theorem flatMap_group_perm (l : List α) :
    ((group key l).flatMap Prod.snd).Perm (l.filter fun a => (key a).isSome) := by
  induction l using List.reverseRecOn with
  | nil => exact .nil
  | append_singleton l a ih =>
    rw [List.filter_append]
    cases found : key a with
    | none =>
      rw [group_of_none found, List.filter_cons_of_neg (by simp [found]), List.filter_nil,
        List.append_nil]
      exact ih
    | some k =>
      rw [group_of_some found, List.filter_cons_of_pos (by simp [found]), List.filter_nil]
      have entered : ((enter k a (group key l)).flatMap Prod.snd).Perm
          (a :: (group key l).flatMap Prod.snd) := by
        apply flatMap_upsert_perm
        · intro g _
          exact List.perm_append_singleton a g.2
        · intro _
          rfl
      exact (entered.trans (ih.cons a)).trans (List.perm_append_singleton a _).symm

/-- A group has items, and they have its key. -/
theorem group_items {l : List α} {g : κ × List α} (mem : g ∈ group key l) :
    g.2 ≠ [] ∧ ∀ a ∈ g.2, key a = some g.1 := by
  induction l using List.reverseRecOn generalizing g with
  | nil => cases mem
  | append_singleton l a ih =>
    cases found : key a with
    | none =>
      rw [group_of_none found] at mem
      exact ih mem
    | some k =>
      rw [group_of_some found] at mem
      obtain old | ⟨g', here, rfl⟩ | ⟨-, rfl⟩ := mem_upsert mem
      · exact ih old
      · have at_k : g'.1 = k := by simpa using List.find?_some here
        obtain ⟨-, keyed⟩ := ih (List.mem_of_find?_eq_some here)
        refine ⟨by simp, ?_⟩
        intro b mem
        obtain mem | mem := List.mem_append.mp mem
        · rw [keyed b mem, at_k]
        · rw [List.mem_singleton.mp mem, found]
      · refine ⟨by simp, ?_⟩
        intro b mem
        rw [List.mem_singleton.mp mem, found]

/-- An item is in the group of its key. -/
theorem mem_group {l : List α} {k : κ} {a : α} :
    (∃ g ∈ group key l, g.1 = k ∧ a ∈ g.2) ↔ a ∈ l ∧ key a = some k := by
  have all := (@flatMap_group_perm _ _ _ key l).mem_iff (a := a)
  rw [List.mem_flatMap, List.mem_filter] at all
  constructor
  · rintro ⟨g, grouped, rfl, inside⟩
    exact ⟨(all.mp ⟨g, grouped, inside⟩).1, (group_items grouped).2 a inside⟩
  · rintro ⟨mem, found⟩
    obtain ⟨g, grouped, inside⟩ := all.mpr ⟨mem, by rw [found]; rfl⟩
    have same := (group_items grouped).2 a inside
    rw [found, Option.some.injEq] at same
    exact ⟨g, grouped, same.symm, inside⟩

theorem mem_keys {l : List α} {k : κ} :
    k ∈ (group key l).map Prod.fst ↔ k ∈ l.filterMap key := by
  rw [List.mem_filterMap]
  constructor
  · intro keyed
    obtain ⟨g, grouped, rfl⟩ := List.mem_map.mp keyed
    obtain ⟨a, inside⟩ := List.exists_mem_of_ne_nil _ (group_items grouped).1
    exact ⟨a, mem_group.mp ⟨g, grouped, rfl, inside⟩⟩
  · rintro ⟨a, mem, found⟩
    obtain ⟨g, grouped, rfl, -⟩ := mem_group.mpr ⟨mem, found⟩
    exact List.mem_map.mpr ⟨g, grouped, rfl⟩

/-- There are as many groups as items with a key exactly when no two items share one. -/
theorem length_group_iff (l : List α) :
    (group key l).length = (l.filterMap key).length ↔ (l.filterMap key).Nodup := by
  have perm : ((group key l).map Prod.fst).Perm (l.filterMap key).dedup := by
    rw [List.perm_ext_iff_of_nodup (nodup_keys l) (List.nodup_dedup _)]
    intro k
    rw [mem_keys, List.mem_dedup]
  have length := perm.length_eq
  rw [List.length_map] at length
  rw [length, ← List.dedup_eq_self]
  constructor
  · exact (List.dedup_sublist _).eq_of_length
  · intro same
    rw [same]

/-- The items by their numbers are all the items. -/
theorem flatMap_filter_perm (number : α → Nat) {n : Nat} {l : List α}
    (bound : ∀ a ∈ l, number a < n) :
    ((List.range n).flatMap fun i => l.filter fun a => number a = i).Perm l := by
  induction n generalizing l with
  | zero =>
    cases l with
    | nil => exact .nil
    | cons a l => exact absurd (bound a List.mem_cons_self) (Nat.not_lt_zero _)
  | succ n ih =>
    have last : (l.filter fun a => !decide (number a < n)) = l.filter fun a => number a = n := by
      apply List.filter_congr
      intro a mem
      have := bound a mem
      rw [← decide_not, decide_eq_decide]
      omega
    have before : ((List.range n).flatMap fun i => l.filter fun a => number a = i) =
        (List.range n).flatMap fun i =>
          (l.filter fun a => decide (number a < n)).filter fun a => number a = i := by
      apply List.flatMap_congr
      intro i mem
      rw [List.filter_filter]
      apply List.filter_congr
      intro a _
      have := List.mem_range.mp mem
      rw [← Bool.decide_and, decide_eq_decide]
      omega
    have below : ∀ a ∈ l.filter fun a => decide (number a < n), number a < n := by
      intro a mem
      exact of_decide_eq_true (List.mem_filter.mp mem).2
    rw [List.range_succ, List.flatMap_append, List.flatMap_singleton, ← last, before]
    exact ((ih below).append_right _).trans (List.filter_append_perm _ l)

/-! ## Acting -/

section
variable (act : κ → α → σ → σ)

/-- The items of a group act in their order. -/
def actGroup (g : κ × List α) (s : σ) : σ := g.2.foldl (fun s a => act g.1 a s) s

def Commutes : Prop := ∀ k k', k ≠ k' → ∀ a b s, act k a (act k' b s) = act k' b (act k a s)

variable {act}

omit [DecidableEq κ] in
theorem actGroup_commutes (commutes : Commutes act) {g : κ × List α} {k : κ} (apart : g.1 ≠ k)
    (a : α) (s : σ) : actGroup act g (act k a s) = act k a (actGroup act g s) := by
  obtain ⟨k', items⟩ := g
  change k' ≠ k at apart
  unfold actGroup
  induction items generalizing s with
  | nil => rfl
  | cons b items ih => rw [List.foldl_cons, commutes k' k apart, ih, List.foldl_cons]

omit [DecidableEq κ] in
theorem foldl_actGroup_commutes (commutes : Commutes act) {groups : List (κ × List α)} {k : κ}
    (absent : k ∉ groups.map Prod.fst) (a : α) (s : σ) :
    groups.foldl (fun s g => actGroup act g s) (act k a s) =
      act k a (groups.foldl (fun s g => actGroup act g s) s) := by
  induction groups generalizing s with
  | nil => rfl
  | cons g groups ih =>
    rw [List.map_cons, List.mem_cons, not_or] at absent
    rw [List.foldl_cons, List.foldl_cons, actGroup_commutes commutes (Ne.symm absent.1),
      ih absent.2]

theorem foldl_enter (commutes : Commutes act) {groups : List (κ × List α)}
    (nodup : (groups.map Prod.fst).Nodup) (k : κ) (a : α) (s : σ) :
    (enter k a groups).foldl (fun s g => actGroup act g s) s =
      act k a (groups.foldl (fun s g => actGroup act g s) s) := by
  induction groups generalizing s with
  | nil => rfl
  | cons g groups ih =>
    obtain ⟨absent, nodup⟩ := List.nodup_cons.mp nodup
    rw [enter, upsert]
    by_cases here : g.1 = k
    · have last : actGroup act (k, g.2 ++ [a]) s = act k a (actGroup act g s) := by
        rw [actGroup, List.foldl_append, ← here]
        rfl
      rw [if_pos (decide_eq_true here), List.foldl_cons, last, List.foldl_cons]
      rw [here] at absent
      exact foldl_actGroup_commutes commutes absent a _
    · rw [if_neg (by simpa using here), List.foldl_cons, List.foldl_cons]
      exact ih nodup _

/-- Group by group, or item by item. -/
theorem foldl_group (commutes : Commutes act) (l : List α) (s : σ) :
    (group key l).foldl (fun s g => actGroup act g s) s =
      l.foldl (fun s a =>
        match key a with
        | none => s
        | some k => act k a s) s := by
  induction l using List.reverseRecOn with
  | nil => rfl
  | append_singleton l a ih =>
    rw [List.foldl_append, List.foldl_cons, List.foldl_nil, ← ih]
    cases found : key a with
    | none => rw [group_of_none found]
    | some k => rw [group_of_some found, foldl_enter commutes (nodup_keys l)]

end

end Grouping
