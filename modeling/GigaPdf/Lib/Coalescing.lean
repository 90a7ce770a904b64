import GigaPdf.Lib.Reordering
import GigaPdf.Lib.Upsert
import Mathlib.Data.List.Induction
import Mathlib.Data.List.Pairwise
import Mathlib.Data.List.Sort

/-!
# Coalesced requests

A queue of requests in which the requests under one key are merged: the last one is kept, at the
place of the first one. Where the entries of a list end up after some moves depends only on the
last move of each entry and on the order of these, so that merging moves is harmless just when it
keeps that order among the entries that are moved to the same end.
-/

namespace Coalescing

open Upsert

variable {α β : Type*} [DecidableEq α] {requests : List (α × β)} {a b : α}

/-- One entry in the queue for each key. -/
def enqueue (queue : List (α × β)) (m : α × β) : List (α × β) :=
  upsert (fun queued => queued.1 = m.1) (fun _ => m) m queue

def coalesce (requests : List (α × β)) : List (α × β) := requests.foldl enqueue []

def lastOf (requests : List (α × β)) (a : α) : Option β := requests.reverse.lookup a

def firstBefore (requests : List (α × β)) (a b : α) : Bool :=
  (requests.map Prod.fst).idxOf a < (requests.map Prod.fst).idxOf b

def lastBefore (requests : List (α × β)) (a b : α) : Bool :=
  (requests.map Prod.fst).reverse.idxOf b < (requests.map Prod.fst).reverse.idxOf a

/-! ## The last requests -/

theorem lastOf_append_singleton (requests : List (α × β)) (m : α × β) (a : α) :
    lastOf (requests ++ [m]) a = if a = m.1 then some m.2 else lastOf requests a := by
  obtain ⟨x, value⟩ := m
  rw [lastOf, List.reverse_append, List.reverse_singleton, List.singleton_append,
    List.lookup_cons]
  by_cases here : a = x
  · simp [here]
  · simp [here, beq_false_of_ne here, lastOf]

theorem lastOf_eq_none_iff : lastOf requests a = none ↔ a ∉ requests.map Prod.fst := by
  rw [lastOf, List.lookup_eq_none_iff]
  simp only [List.mem_reverse, List.mem_map, not_exists, not_and, bne_iff_ne, ne_eq]
  constructor
  · intro all m mem here
    exact all m mem here.symm
  · intro all m mem here
    exact all m mem here.symm

/-- The last request under a key is the last of those under it. -/
theorem lastOf_eq_getLast? (requests : List (α × β)) (a : α) :
    lastOf requests a = (requests.filter fun r => r.1 = a).getLast?.map Prod.snd := by
  induction requests using List.reverseRecOn with
  | nil => rfl
  | append_singleton requests m ih =>
    rw [lastOf_append_singleton, List.filter_append, List.filter_singleton]
    by_cases here : a = m.1
    · simp [here]
    · have other : ¬m.1 = a := fun e => here e.symm
      simp [here, other, ih]

theorem mem_keys_of_lastOf {value : β} (last : lastOf requests a = some value) :
    a ∈ requests.map Prod.fst := by
  by_contra absent
  rw [lastOf_eq_none_iff.mpr absent] at last
  cases last

theorem lastBefore_append_singleton (requests : List (α × β)) (m : α × β) :
    lastBefore (requests ++ [m]) a b =
      if a = m.1 then false else if b = m.1 then true else lastBefore requests a b := by
  rw [lastBefore, List.map_append, List.map_singleton, List.reverse_append,
    List.reverse_singleton, List.singleton_append]
  by_cases ha : a = m.1
  · simp [ha]
  · by_cases hb : b = m.1
    · have later : a ≠ m.1 := ha
      simp [hb, ha, List.idxOf_cons_ne _ (Ne.symm later)]
    · rw [if_neg ha, if_neg hb, List.idxOf_cons_ne _ (Ne.symm ha),
        List.idxOf_cons_ne _ (Ne.symm hb)]
      simp [lastBefore]

/-! ## The queue -/

theorem nodup_keys_enqueue {queue : List (α × β)} (nodup : (queue.map Prod.fst).Nodup)
    (m : α × β) : ((enqueue queue m).map Prod.fst).Nodup := by
  apply nodup_map_upsert nodup
  · intro queued here
    exact (of_decide_eq_true here).symm
  · intro queued _ other
    exact of_decide_eq_false other

theorem keys_enqueue (queue : List (α × β)) (m : α × β) :
    (enqueue queue m).map Prod.fst =
      if m.1 ∈ queue.map Prod.fst then queue.map Prod.fst else queue.map Prod.fst ++ [m.1] := by
  cases found : queue.find? (fun queued => queued.1 = m.1) with
  | none =>
    have absent : m.1 ∉ queue.map Prod.fst := by
      intro mem
      obtain ⟨queued, mem, here⟩ := List.mem_map.mp mem
      exact List.find?_eq_none.mp found queued mem (decide_eq_true here)
    rw [enqueue, upsert_of_find?_none found, List.map_append, List.map_singleton, if_neg absent]
  | some queued =>
    have here : queued.1 = m.1 := by simpa using List.find?_some found
    have present : m.1 ∈ queue.map Prod.fst :=
      List.mem_map.mpr ⟨queued, List.mem_of_find?_eq_some found, here⟩
    rw [enqueue, map_upsert_of_find?_some found here.symm, if_pos present]

theorem mem_enqueue {queue : List (α × β)} (nodup : (queue.map Prod.fst).Nodup)
    {m x : α × β} : x ∈ enqueue queue m ↔ x = m ∨ x.1 ≠ m.1 ∧ x ∈ queue := by
  have self : m ∈ enqueue queue m := mem_upsert_self fun _ => rfl
  constructor
  · intro mem
    by_cases here : x.1 = m.1
    · exact .inl (List.inj_on_of_nodup_map (nodup_keys_enqueue nodup m) mem self here)
    · obtain old | ⟨-, -, rfl⟩ | ⟨-, rfl⟩ := mem_upsert mem
      · exact .inr ⟨here, old⟩
      · exact absurd rfl here
      · exact absurd rfl here
  · rintro (rfl | ⟨other, mem⟩)
    · exact self
    · exact mem_upsert_of_not mem (decide_eq_false other)

theorem coalesce_append_singleton (requests : List (α × β)) (m : α × β) :
    coalesce (requests ++ [m]) = enqueue (coalesce requests) m := by
  rw [coalesce, List.foldl_append]
  rfl

theorem nodup_keys_coalesce (requests : List (α × β)) :
    ((coalesce requests).map Prod.fst).Nodup := by
  induction requests using List.reverseRecOn with
  | nil => exact List.nodup_nil
  | append_singleton requests m ih =>
    rw [coalesce_append_singleton]
    exact nodup_keys_enqueue ih m

theorem mem_coalesce {x : α × β} :
    x ∈ coalesce requests ↔ lastOf requests x.1 = some x.2 := by
  induction requests using List.reverseRecOn with
  | nil => exact iff_of_false List.not_mem_nil (by simp [lastOf])
  | append_singleton requests m ih =>
    rw [coalesce_append_singleton, mem_enqueue (nodup_keys_coalesce requests), ih,
      lastOf_append_singleton]
    by_cases here : x.1 = m.1
    · simp [here, Prod.ext_iff, eq_comm]
    · have other : x ≠ m := fun e => here (congrArg Prod.fst e)
      simp [here, other]

/-- Without repetitions the last request is the only one. -/
theorem lastOf_eq_some_iff {queue : List (α × β)} (nodup : (queue.map Prod.fst).Nodup)
    {value : β} : lastOf queue a = some value ↔ (a, value) ∈ queue := by
  constructor
  · intro last
    obtain ⟨front, back, split, -⟩ := List.lookup_eq_some_iff.mp last
    have mem : (a, value) ∈ queue.reverse := by simp [split]
    exact List.mem_reverse.mp mem
  · intro mem
    cases last : lastOf queue a with
    | none => exact absurd (List.mem_map_of_mem mem) (lastOf_eq_none_iff.mp last)
    | some other =>
      obtain ⟨front, back, split, -⟩ := List.lookup_eq_some_iff.mp last
      have mem' : (a, other) ∈ queue.reverse := by simp [split]
      have same := List.inj_on_of_nodup_map nodup mem (List.mem_reverse.mp mem') rfl
      rw [(Prod.mk.inj same).2]

/-- Where each key occurs once, what is filed under a key is one entry. -/
theorem filter_key_of_mem {queue : List (α × β)} (nodup : (queue.map Prod.fst).Nodup) {x : α × β}
    (mem : x ∈ queue) : (queue.filter fun queued => queued.1 = x.1) = [x] := by
  induction queue with
  | nil => cases mem
  | cons queued queue ih =>
    obtain ⟨fresh, rest⟩ := List.nodup_cons.mp nodup
    obtain rfl | mem := List.mem_cons.mp mem
    · have none_else : (queue.filter fun queued => queued.1 = x.1) = [] := by
        apply List.filter_eq_nil_iff.mpr
        intro other inside here
        exact fresh (List.mem_map.mpr ⟨other, inside, of_decide_eq_true here⟩)
      rw [List.filter_cons_of_pos (by simp), none_else]
    · have other : queued.1 ≠ x.1 := fun e => fresh (e ▸ List.mem_map_of_mem mem)
      rw [List.filter_cons_of_neg (by simpa using other), ih rest mem]

theorem filter_coalesce_of_lastOf {value : β} (last : lastOf requests a = some value) :
    ((coalesce requests).filter fun queued => queued.1 = a) = [(a, value)] := by
  have mem : (a, value) ∈ coalesce requests := mem_coalesce.mpr last
  exact filter_key_of_mem (nodup_keys_coalesce requests) mem

theorem lastOf_coalesce (requests : List (α × β)) (a : α) :
    lastOf (coalesce requests) a = lastOf requests a := by
  apply Option.ext
  intro value
  rw [lastOf_eq_some_iff (nodup_keys_coalesce requests), mem_coalesce]

theorem mem_keys_coalesce : a ∈ (coalesce requests).map Prod.fst ↔ a ∈ requests.map Prod.fst := by
  have same := lastOf_coalesce requests a
  constructor
  · intro mem
    by_contra absent
    rw [lastOf_eq_none_iff.mpr absent] at same
    exact lastOf_eq_none_iff.mp same mem
  · intro mem
    by_contra absent
    rw [lastOf_eq_none_iff.mpr absent] at same
    exact lastOf_eq_none_iff.mp same.symm mem

/-- An entry put last stands before no other, and behind all others. -/
theorem idxOf_lt_append_singleton {l : List α} {x : α} (fresh : x ∉ l) (ha : a ∈ l ∨ a = x)
    (hb : b ∈ l ∨ b = x) :
    (l ++ [x]).idxOf a < (l ++ [x]).idxOf b ↔ a ≠ x ∧ (b = x ∨ l.idxOf a < l.idxOf b) := by
  have last : (l ++ [x]).idxOf x = l.length := by
    rw [List.idxOf_append_of_notMem fresh]
    simp
  obtain ha | rfl := ha
  · have ha' : a ≠ x := fun e => fresh (e ▸ ha)
    have inside := List.idxOf_lt_length_of_mem ha
    rw [List.idxOf_append_of_mem ha]
    obtain hb | rfl := hb
    · have hb' : b ≠ x := fun e => fresh (e ▸ hb)
      rw [List.idxOf_append_of_mem hb]
      simp [ha', hb']
    · simp [last, ha', inside]
  · have bound : ¬l.length < (l ++ [a]).idxOf b := by
      obtain hb | rfl := hb
      · have inside := List.idxOf_lt_length_of_mem hb
        rw [List.idxOf_append_of_mem hb]
        omega
      · omega
    simp [last, bound]

/-- The queue has the entries in the order of their first requests. -/
theorem firstBefore_coalesce (ha : a ∈ requests.map Prod.fst) (hb : b ∈ requests.map Prod.fst) :
    firstBefore (coalesce requests) a b = firstBefore requests a b := by
  induction requests using List.reverseRecOn with
  | nil => cases ha
  | append_singleton requests m ih =>
    have keys : ∀ {x : α}, x ∈ (coalesce requests).map Prod.fst ↔ x ∈ requests.map Prod.fst :=
      mem_keys_coalesce
    rw [coalesce_append_singleton, firstBefore, firstBefore, keys_enqueue, List.map_append,
      List.map_singleton]
    rw [List.map_append, List.map_singleton, List.mem_append, List.mem_singleton] at ha hb
    by_cases old : m.1 ∈ requests.map Prod.fst
    · have ha' : a ∈ requests.map Prod.fst := ha.elim id fun e => e ▸ old
      have hb' : b ∈ requests.map Prod.fst := hb.elim id fun e => e ▸ old
      rw [if_pos (keys.mpr old), List.idxOf_append_of_mem ha', List.idxOf_append_of_mem hb']
      exact ih ha' hb'
    · have fresh : m.1 ∉ (coalesce requests).map Prod.fst := fun mem => old (keys.mp mem)
      rw [if_neg fresh, decide_eq_decide]
      rw [idxOf_lt_append_singleton old ha hb, idxOf_lt_append_singleton fresh
        (ha.imp_left keys.mpr) (hb.imp_left keys.mpr)]
      by_cases hb' : b = m.1
      · simp [hb']
      · by_cases ha' : a = m.1
        · simp [ha']
        · have same := ih (ha.resolve_right ha') (hb.resolve_right hb')
          rw [firstBefore, firstBefore, decide_eq_decide] at same
          rw [same]

theorem firstBefore_total (ha : a ∈ requests.map Prod.fst) (other : a ≠ b)
    (behind : firstBefore requests a b = false) : firstBefore requests b a = true := by
  simp only [firstBefore, decide_eq_false_iff_not, decide_eq_true_eq] at behind ⊢
  have differ : (requests.map Prod.fst).idxOf a ≠ (requests.map Prod.fst).idxOf b :=
    fun e => other ((List.idxOf_inj ha).mp e)
  omega

theorem idxOf_reverse {l : List α} (nodup : l.Nodup) (mem : a ∈ l) :
    l.reverse.idxOf a + l.idxOf a + 1 = l.length := by
  have inside := List.idxOf_lt_length_of_mem mem
  have mirrored : l.length - 1 - l.idxOf a < l.reverse.length := by
    rw [List.length_reverse]
    omega
  have here : l.reverse[l.length - 1 - l.idxOf a] = a := by
    rw [List.getElem_reverse]
    have back : l.length - 1 - (l.length - 1 - l.idxOf a) = l.idxOf a := by omega
    simp only [back, List.getElem_idxOf]
  have place := (List.nodup_reverse.mpr nodup).idxOf_getElem _ mirrored
  rw [here] at place
  omega

/-- In the queue the only request under a key is the first and the last one. -/
theorem lastBefore_coalesce (ha : a ∈ requests.map Prod.fst) (hb : b ∈ requests.map Prod.fst) :
    lastBefore (coalesce requests) a b = firstBefore requests a b := by
  have nodup := nodup_keys_coalesce requests
  have place := idxOf_reverse nodup (mem_keys_coalesce.mpr ha)
  have place' := idxOf_reverse nodup (mem_keys_coalesce.mpr hb)
  rw [← firstBefore_coalesce ha hb, lastBefore, firstBefore, decide_eq_decide]
  omega

end Coalescing

namespace Reordering

open Coalescing

variable {α : Type*} [DecidableEq α] {moves moves' : List (α × Bool)} {a b : α}

/-- Entries that end up at the same end were first moved in the order in which they were last
moved. -/
def KeepsOrder (moves : List (α × Bool)) (l : List α) : Prop :=
  ∀ a ∈ l, ∀ b ∈ l, ∀ toEnd, lastOf moves a = some toEnd → lastOf moves b = some toEnd →
    firstBefore moves a b = true → lastBefore moves a b = true

instance (moves : List (α × Bool)) (l : List α) : Decidable (KeepsOrder moves l) :=
  inferInstanceAs (Decidable (∀ a ∈ l, ∀ b ∈ l, ∀ _ : Bool, _ → _ → _ → _))

/-- What precedes what after some moves: the last move of either entry decides. -/
theorem precedes_eq (r : α → α → Bool) (moves : List (α × Bool)) (other : a ≠ b) :
    precedes r moves a b =
      match lastOf moves a, lastOf moves b with
      | none, none => r a b
      | some toEnd, none => !toEnd
      | none, some toEnd => toEnd
      | some toEnd, some toEnd' =>
        if toEnd = toEnd' then toEnd == lastBefore moves a b else toEnd' := by
  induction moves using List.reverseRecOn with
  | nil => rfl
  | append_singleton moves m ih =>
    have step : precedes r (moves ++ [m]) = afterMove m (precedes r moves) := by
      rw [precedes, List.foldl_append]
      rfl
    rw [step, afterMove, lastOf_append_singleton, lastOf_append_singleton,
      lastBefore_append_singleton]
    by_cases ha : a = m.1
    · have hb : b ≠ m.1 := fun e => other (ha.trans e.symm)
      cases lastOf moves b with
      | none => simp [ha, hb]
      | some toEnd =>
        simp only [ha, hb, if_true, if_false, ne_eq, not_false_eq_true, decide_true, Bool.and_true]
        cases m.2 <;> cases toEnd <;> rfl
    · by_cases hb : b = m.1
      · cases lastOf moves a with
        | none => simp [ha, hb]
        | some toEnd =>
          simp only [ha, hb, if_true, if_false]
          cases m.2 <;> cases toEnd <;> rfl
      · simp only [ha, hb, if_false, ih]

/-! ## Where the entries end up -/

theorem precedes_asymm {r : α → α → Bool} (asymm : Asymm r) (moves : List (α × Bool)) :
    Asymm (precedes r moves) := by
  induction moves generalizing r with
  | nil => exact asymm
  | cons m moves ih => exact ih (afterMove_asymm asymm m)

theorem pairwise_moveItems {r : α → α → Bool} {l : List α} (nodup : l.Nodup)
    (sorted : l.Pairwise fun a b => r a b = true) (moves : List (α × Bool)) :
    (moveItems moves l).Pairwise fun a b => precedes r moves a b = true := by
  induction moves generalizing r l with
  | nil => exact sorted
  | cons m moves ih =>
    exact ih ((moveItem_perm m.1 m.2 l).nodup_iff.mpr nodup) (pairwise_moveItem nodup sorted m)

/-- The order of a list without repetitions. -/
def standsBefore (l : List α) (a b : α) : Bool := l.idxOf a < l.idxOf b

theorem standsBefore_asymm (l : List α) : Asymm (standsBefore l) := by
  intro a b before
  simp only [standsBefore, decide_eq_true_eq, decide_eq_false_iff_not] at before ⊢
  omega

theorem pairwise_standsBefore {l : List α} (nodup : l.Nodup) :
    l.Pairwise fun a b => standsBefore l a b = true := by
  rw [List.pairwise_iff_getElem]
  intro i j hi hj lt
  simp only [standsBefore, nodup.idxOf_getElem, decide_eq_true_eq]
  exact lt

omit [DecidableEq α] in
/-- Of two entries of a list in order one stands before the other. -/
theorem pairwise_either {R : α → α → Prop} {l : List α} (sorted : l.Pairwise R) (ha : a ∈ l)
    (hb : b ∈ l) (other : a ≠ b) : R a b ∨ R b a := by
  have symm : Std.Symm fun x y => R x y ∨ R y x := ⟨fun _ _ => Or.symm⟩
  have either : l.Pairwise fun x y => R x y ∨ R y x := sorted.imp Or.inl
  exact either.forall ha hb other

/-- Two batches of moves lead to the same list just when the same entries precede each other. -/
theorem moveItems_eq_iff {l : List α} (nodup : l.Nodup) {r : α → α → Bool} (asymm : Asymm r)
    (sorted : l.Pairwise fun a b => r a b = true) :
    moveItems moves l = moveItems moves' l ↔
      ∀ a ∈ l, ∀ b ∈ l, a ≠ b → precedes r moves a b = precedes r moves' a b := by
  have left := pairwise_moveItems nodup sorted moves
  have right := pairwise_moveItems nodup sorted moves'
  have asymm_left := precedes_asymm asymm moves
  have asymm_right := precedes_asymm asymm moves'
  constructor
  · intro same a ha b hb other
    rw [← same] at right
    have perm := moveItems_perm moves l
    obtain ⟨before, before'⟩ | ⟨after, after'⟩ :=
      pairwise_either (left.and right) (perm.mem_iff.mpr ha) (perm.mem_iff.mpr hb) other
    · rw [before, before']
    · rw [asymm_left b a after, asymm_right b a after']
  · intro agree
    have perm := (moveItems_perm moves l).trans (moveItems_perm moves' l).symm
    have nodup' : (moveItems moves' l).Nodup := (moveItems_perm moves' l).nodup_iff.mpr nodup
    have right' : (moveItems moves' l).Pairwise fun a b => precedes r moves a b = true := by
      apply (right.and nodup').imp_of_mem
      rintro a b ha hb ⟨before, other⟩
      have perm' := moveItems_perm moves' l
      rw [agree a (perm'.mem_iff.mp ha) b (perm'.mem_iff.mp hb) other]
      exact before
    apply perm.eq_of_pairwise _ left right'
    intro a b _ _ before after
    rw [asymm_left a b before] at after
    cases after

theorem lastBefore_asymm (moves : List (α × Bool)) : Asymm (lastBefore moves) := by
  intro a b before
  simp only [lastBefore, decide_eq_true_eq, decide_eq_false_iff_not] at before ⊢
  omega

/-- **Merging the moves of each entry changes nothing just when it keeps the order** of the entries
that are moved to the same end. -/
theorem moveItems_coalesce_iff {l : List α} (nodup : l.Nodup) (moves : List (α × Bool)) :
    moveItems (coalesce moves) l = moveItems moves l ↔ KeepsOrder moves l := by
  rw [moveItems_eq_iff nodup (standsBefore_asymm l) (pairwise_standsBefore nodup)]
  constructor
  · intro agree a ha b hb toEnd last last' first
    by_cases other : a = b
    · simp [firstBefore, other] at first
    · have same := agree a ha b hb other
      rw [precedes_eq _ _ other, precedes_eq _ _ other, lastOf_coalesce, lastOf_coalesce, last,
        last', lastBefore_coalesce (mem_keys_of_lastOf last) (mem_keys_of_lastOf last')] at same
      cases toEnd <;> simpa [first] using same
  · intro keeps a ha b hb other
    rw [precedes_eq _ _ other, precedes_eq _ _ other, lastOf_coalesce, lastOf_coalesce]
    cases last : lastOf moves a with
    | none => cases lastOf moves b <;> rfl
    | some toEnd =>
      cases last' : lastOf moves b with
      | none => rfl
      | some toEnd' =>
        simp only
        split
        · rename_i same
          subst same
          have mem := mem_keys_of_lastOf last
          have mem' := mem_keys_of_lastOf last'
          rw [lastBefore_coalesce mem mem']
          cases first : firstBefore moves a b with
          | true => rw [keeps a ha b hb toEnd last last' first]
          | false =>
            have after := keeps b hb a ha toEnd last' last (firstBefore_total mem other first)
            rw [lastBefore_asymm moves b a after]
        · rfl

end Reordering
