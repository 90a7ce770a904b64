import Mathlib.Data.List.Pairwise
import Mathlib.Data.List.Sort
import Mathlib.Order.Defs.LinearOrder

/-!
# Comparators

Sorting by a function that tells the order of two items. What a sort does is laid down only where
the comparator is consistent on the list: the result is then ordered, and items that compare equal
keep their order. Otherwise any order may come out.
-/

namespace Comparators

variable {α K : Type*} [Zero K] [LinearOrder K]

structure Consistent (compare : α → α → K) (l : List α) : Prop where
  self : ∀ a ∈ l, compare a a = 0
  symm : ∀ a ∈ l, ∀ b ∈ l, compare a b < 0 ↔ 0 < compare b a
  lt_trans : ∀ a ∈ l, ∀ b ∈ l, ∀ c ∈ l, compare a b < 0 → compare b c < 0 → compare a c < 0
  eq_trans : ∀ a ∈ l, ∀ b ∈ l, ∀ c ∈ l, compare a b = 0 → compare b c = 0 → compare a c = 0

structure Conforming (compare : α → α → K) (sort : List α → List α) : Prop where
  perm : ∀ l, (sort l).Perm l
  ordered : ∀ l, Consistent compare l → (sort l).Pairwise fun a b => compare a b ≤ 0
  stable : ∀ l, Consistent compare l → ∀ a ∈ l,
    (sort l).filter (compare a · = 0) = l.filter (compare a · = 0)

variable {compare : α → α → K} {l l' : List α} {a b c : α}

namespace Consistent

theorem mono (consistent : Consistent compare l) (part : ∀ a ∈ l', a ∈ l) :
    Consistent compare l' where
  self a ha := consistent.self a (part a ha)
  symm a ha b hb := consistent.symm a (part a ha) b (part b hb)
  lt_trans a ha b hb c hc := consistent.lt_trans a (part a ha) b (part b hb) c (part c hc)
  eq_trans a ha b hb c hc := consistent.eq_trans a (part a ha) b (part b hb) c (part c hc)

theorem eq_symm (consistent : Consistent compare l) (ha : a ∈ l) (hb : b ∈ l)
    (same : compare a b = 0) : compare b a = 0 := by
  have not_before := (consistent.symm b hb a ha).not.mpr same.le.not_gt
  have not_behind := (consistent.symm a ha b hb).not.mp same.ge.not_gt
  exact le_antisymm (not_lt.mp not_behind) (not_lt.mp not_before)

theorem total (consistent : Consistent compare l) (ha : a ∈ l) (hb : b ∈ l) :
    compare a b ≤ 0 ∨ compare b a ≤ 0 := by
  obtain before | behind := le_or_gt (compare a b) 0
  · exact .inl before
  · exact .inr ((consistent.symm b hb a ha).mpr behind).le

theorem le_trans (consistent : Consistent compare l) (ha : a ∈ l) (hb : b ∈ l) (hc : c ∈ l)
    (first : compare a b ≤ 0) (next : compare b c ≤ 0) : compare a c ≤ 0 := by
  by_contra behind
  have back : compare c a < 0 := (consistent.symm c hc a ha).mpr (not_le.mp behind)
  obtain before | same := first.lt_or_eq
  · have wrong := consistent.lt_trans c hc a ha b hb back before
    exact absurd next ((consistent.symm c hc b hb).mp wrong).not_ge
  · obtain before' | same' := next.lt_or_eq
    · have wrong := consistent.lt_trans b hb c hc a ha before' back
      exact absurd (consistent.eq_symm ha hb same) wrong.ne
    · exact behind (consistent.eq_trans a ha b hb c hc same same').le

end Consistent

/-! ## Sorts that differ where nothing is laid down -/

theorem ordered_insertionSort (consistent : Consistent compare l) :
    (l.insertionSort fun a b => compare a b ≤ 0).Pairwise fun a b => compare a b ≤ 0 := by
  let le : {a // a ∈ l} → {a // a ∈ l} → Prop := fun a b => compare a.1 b.1 ≤ 0
  have total : Std.Total le := ⟨fun a b => consistent.total a.2 b.2⟩
  have trans : IsTrans _ le := ⟨fun a b c first next => consistent.le_trans a.2 b.2 c.2 first next⟩
  have mapped : (l.attach.insertionSort le).map Subtype.val =
      l.insertionSort fun a b => compare a b ≤ 0 := by
    rw [List.map_insertionSort le (fun a b => compare a b ≤ 0) Subtype.val l.attach
        fun a _ b _ => Iff.rfl, List.attach_map_subtype_val]
  rw [← mapped, List.pairwise_map]
  exact List.pairwise_insertionSort le l.attach

theorem stable_insertionSort (consistent : Consistent compare l) (mem : a ∈ l) :
    (l.insertionSort fun a b => compare a b ≤ 0).filter (compare a · = 0) =
      l.filter (compare a · = 0) := by
  have ties : (l.filter (compare a · = 0)).Pairwise fun b c => compare b c ≤ 0 := by
    refine List.pairwise_of_forall_mem_list fun b hb c hc => ?_
    obtain ⟨hb, same⟩ := List.mem_filter.mp hb
    obtain ⟨hc, same'⟩ := List.mem_filter.mp hc
    have back := consistent.eq_symm mem hb (of_decide_eq_true same)
    exact (consistent.eq_trans b hb a mem c hc back (of_decide_eq_true same')).le
  have kept := (List.sublist_insertionSort ties List.filter_sublist).filter (compare a · = 0)
  rw [List.filter_filter] at kept
  have size := ((List.perm_insertionSort (fun a b => compare a b ≤ 0) l).filter
    (compare a · = 0)).length_eq
  simp only [Bool.and_self] at kept
  exact (kept.eq_of_length size.symm).symm

open Classical in
/-- Orders a list only where it has to. -/
noncomputable def lazySort (compare : α → α → K) (l : List α) : List α :=
  if Consistent compare l then l.insertionSort fun a b => compare a b ≤ 0 else l

theorem conforming_lazySort : Conforming compare (lazySort compare) where
  perm l := by
    rw [lazySort]
    split
    · exact List.perm_insertionSort _ l
    · exact .refl l
  ordered l consistent := by
    rw [lazySort, if_pos consistent]
    exact ordered_insertionSort consistent
  stable l consistent a mem := by
    rw [lazySort, if_pos consistent]
    exact stable_insertionSort consistent mem

/-! ## Comparators that tell all items apart -/

theorem Conforming.strict {sort : List α → List α} (conforming : Conforming compare sort)
    (consistent : Consistent compare l) (strict : ∀ a ∈ l, ∀ b ∈ l, compare a b = 0 → a = b)
    (nodup : l.Nodup) : (sort l).Pairwise fun a b => compare a b < 0 := by
  have perm := conforming.perm l
  have distinct : (sort l).Nodup := perm.nodup_iff.mpr nodup
  refine ((conforming.ordered l consistent).and distinct).imp_of_mem ?_
  rintro a b ha hb ⟨ordered, other⟩
  exact lt_of_le_of_ne ordered
    fun tie => other (strict a (perm.mem_iff.mp ha) b (perm.mem_iff.mp hb) tie)

theorem Conforming.perm_eq {sort : List α → List α} (conforming : Conforming compare sort)
    (consistent : Consistent compare l)
    (strict : ∀ a ∈ l, ∀ b ∈ l, compare a b = 0 → a = b) (perm : l'.Perm l) :
    sort l' = sort l := by
  have consistent' : Consistent compare l' := consistent.mono fun _ mem => perm.mem_iff.mp mem
  have both : (sort l').Perm (sort l) :=
    (conforming.perm l').trans (perm.trans (conforming.perm l).symm)
  refine List.Perm.eq_of_pairwise ?_ (conforming.ordered l' consistent')
    (conforming.ordered l consistent) both
  intro a b ha hb first back
  have ha := perm.mem_iff.mp ((conforming.perm l').mem_iff.mp ha)
  have hb := (conforming.perm l).mem_iff.mp hb
  refine strict a ha b hb (le_antisymm first ?_)
  exact not_lt.mp ((consistent.symm a ha b hb).not.mpr back.not_gt)

theorem strict_of_pairwise (swap : ∀ a b, compare a b < 0 ↔ 0 < compare b a)
    (sorted : l.Pairwise fun a b => compare a b < 0) :
    ∀ a ∈ l, ∀ b ∈ l, compare a b = 0 → a = b := by
  have symm : Std.Symm fun a b => compare a b ≠ 0 := ⟨fun a b other => by
    obtain less | more := other.lt_or_gt
    · exact ((swap a b).mp less).ne'
    · exact ((swap b a).mpr more).ne⟩
  have others : l.Pairwise fun a b => compare a b ≠ 0 := sorted.imp ne_of_lt
  intro a ha b hb tie
  by_contra other
  exact others.forall ha hb other tie

section
variable (self : ∀ a, compare a a = 0) (swap : ∀ a b, compare a b < 0 ↔ 0 < compare b a)
  (sorted : l.Pairwise fun a b => compare a b < 0)
include self swap sorted

/-- A comparator is consistent on a list that has every item before those that follow. -/
theorem consistent_of_pairwise : Consistent compare l := by
  have strict := strict_of_pairwise swap sorted
  refine ⟨fun a _ => self a, fun a _ b _ => swap a b, ?_, fun a ha b hb c _ first next => ?_⟩
  · induction l with
    | nil => exact fun a ha => absurd ha List.not_mem_nil
    | cons d rest ih =>
      obtain ⟨first, others⟩ := List.pairwise_cons.mp sorted
      have least : ∀ a ∈ d :: rest, ¬compare a d < 0 := by
        intro a ha less
        obtain rfl | inside := List.mem_cons.mp ha
        · exact less.ne (self a)
        · exact less.asymm ((swap d a).mp (first a inside))
      intro a ha b hb c hc less next
      obtain rfl | hc' := List.mem_cons.mp hc
      · exact absurd next (least b hb)
      · obtain rfl | hb' := List.mem_cons.mp hb
        · exact absurd less (least a ha)
        · obtain rfl | ha' := List.mem_cons.mp ha
          · exact first c hc'
          · exact ih others (strict_of_pairwise swap others) a ha' b hb' c hc' less next
  · rwa [strict a ha b hb first]

theorem Conforming.eq_self {sort : List α → List α} (conforming : Conforming compare sort) :
    sort l = l := by
  have consistent := consistent_of_pairwise self swap sorted
  have ordered := conforming.ordered l consistent
  refine List.Perm.eq_of_pairwise ?_ ordered (sorted.imp le_of_lt) (conforming.perm l)
  intro a b ha hb first back
  have ha := (conforming.perm l).mem_iff.mp ha
  refine strict_of_pairwise swap sorted a ha b hb (le_antisymm first ?_)
  exact not_lt.mp ((swap a b).not.mpr back.not_gt)

end

/-- In a list that reads the same backwards without having an item twice, there is one item. -/
theorem eq_of_reverse_eq (nodup : l.Nodup) (same : l.reverse = l) (ha : a ∈ l) (hb : b ∈ l) :
    a = b := by
  cases l with
  | nil => cases ha
  | cons c rest =>
    obtain rfl | ⟨front, d, rfl⟩ := List.eq_nil_or_concat rest
    · rw [List.mem_singleton.mp ha, List.mem_singleton.mp hb]
    · rw [List.concat_eq_append, List.reverse_cons, List.reverse_append] at same
      obtain rfl : d = c := (List.cons.inj same).1
      simp at nodup

/-- Where the order of the input makes no difference, the comparator is consistent and tells any two
items apart. -/
theorem consistent_of_perm_eq (nodup : l.Nodup) (self : ∀ a, compare a a = 0)
    (invariant : ∀ l', l'.Perm l → lazySort compare l' = lazySort compare l) :
    Consistent compare l ∧ ∀ a ∈ l, ∀ b ∈ l, compare a b = 0 → a = b := by
  have turned := invariant l.reverse l.reverse_perm
  have consistent : Consistent compare l := by
    by_contra free
    have free' : ¬Consistent compare l.reverse :=
      fun consistent => free (consistent.mono fun _ mem => List.mem_reverse.mpr mem)
    rw [lazySort, lazySort, if_neg free, if_neg free'] at turned
    have one {a b : α} (ha : a ∈ l) (hb : b ∈ l) : a = b := eq_of_reverse_eq nodup turned ha hb
    refine free ⟨fun a _ => self a, ?_, ?_, ?_⟩
    · intro a ha b hb
      rw [one ha hb, self]
    · intro a ha b hb c hc first
      rw [one ha hb, self] at first
      exact absurd first (lt_irrefl 0)
    · intro a ha b hb c hc _ _
      rw [one ha hc, self]
  refine ⟨consistent, fun a ha b hb same => ?_⟩
  have consistent' : Consistent compare l.reverse :=
    consistent.mono fun _ mem => List.mem_reverse.mp mem
  have kept := conforming_lazySort.stable l consistent a ha
  have kept' := conforming_lazySort.stable l.reverse consistent' a (List.mem_reverse.mpr ha)
  rw [turned, kept, List.filter_reverse] at kept'
  exact eq_of_reverse_eq (nodup.filter _) kept'.symm (List.mem_filter.mpr ⟨ha, by simp [self]⟩)
    (List.mem_filter.mpr ⟨hb, by simp [same]⟩)

end Comparators
