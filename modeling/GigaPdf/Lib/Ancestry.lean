import Mathlib.Data.List.Induction
import Mathlib.Data.List.Nodup
import Mathlib.Logic.Function.Basic
import Mathlib.Logic.Relation

/-!
# Parent pointers

Every node has a parent or none. The chain of a node lists the nodes above it from the root down to
its parent; a node on a cycle has none. Chains say what is below a node, and how a node is given
another parent.
-/

namespace Ancestry

variable {ι : Type*}

/-- The nodes above a node, the root first. -/
inductive Chain (parent : ι → Option ι) : ι → List ι → Prop
  | top {i : ι} : parent i = none → Chain parent i []
  | child {i p : ι} {ids : List ι} : parent i = some p → Chain parent p ids →
      Chain parent i (ids ++ [p])

/-- The second node is the parent of the first. -/
def Points (parent : ι → Option ι) (i p : ι) : Prop := parent i = some p

variable {parent parent' : ι → Option ι} {i j m : ι} {ids above : List ι}

theorem Chain.of_parent {p : ι} (chain : Chain parent i ids) (h : parent i = some p) :
    ∃ above, Chain parent p above ∧ ids = above ++ [p] := by
  cases chain with
  | top none_above =>
    rw [none_above] at h
    cases h
  | child some_above rest =>
    rw [some_above, Option.some.injEq] at h
    subst h
    exact ⟨_, rest, rfl⟩

theorem Chain.eq_nil (chain : Chain parent i ids) (h : parent i = none) : ids = [] := by
  cases chain with
  | top => rfl
  | child some_above =>
    rw [some_above] at h
    cases h

theorem Chain.of_concat {p : ι} (chain : Chain parent i (ids ++ [p])) :
    parent i = some p ∧ Chain parent p ids := by
  generalize whole : ids ++ [p] = all at chain
  cases chain with
  | top => simp at whole
  | child h rest =>
    obtain ⟨rfl, same⟩ := List.append_inj' whole rfl
    rw [List.cons.injEq] at same
    rw [same.1]
    exact ⟨h, rest⟩

theorem Chain.unique (chain : Chain parent i ids) {ids' : List ι} (other : Chain parent i ids') :
    ids = ids' := by
  induction chain generalizing ids' with
  | top h => exact (other.eq_nil h).symm
  | child h _ ih =>
    obtain ⟨above, rest, rfl⟩ := other.of_parent h
    rw [ih rest]

/-- The chain only depends on the pointers on it. -/
theorem Chain.congr (chain : Chain parent i ids) (here : parent' i = parent i)
    (same : ∀ j ∈ ids, parent' j = parent j) : Chain parent' i ids := by
  induction chain with
  | top h => exact .top (here.trans h)
  | @child i p ids h _ ih =>
    refine .child (here.trans h) (ih (same p (by simp)) fun j mem => ?_)
    exact same j (List.mem_append_left _ mem)

/-- The chain of a node above is the part of the chain down to it. -/
theorem Chain.of_mem (chain : Chain parent i ids) (mem : j ∈ ids) :
    ∃ above below, Chain parent j above ∧ ids = above ++ j :: below := by
  induction chain with
  | top => cases mem
  | @child i p ids h rest ih =>
    obtain mem | last := List.mem_append.mp mem
    · obtain ⟨above, below, chain, rfl⟩ := ih mem
      exact ⟨above, below ++ [p], chain, by simp⟩
    · rw [List.mem_singleton.mp last]
      exact ⟨ids, [], rest, rfl⟩

/-- A node is not above itself. -/
theorem Chain.not_mem_self (chain : Chain parent i ids) : i ∉ ids := by
  intro mem
  obtain ⟨above, below, own, split⟩ := chain.of_mem mem
  have same := chain.unique own
  have longer := congrArg List.length split
  rw [same, List.length_append, List.length_cons] at longer
  omega

theorem Chain.nodup (chain : Chain parent i ids) : (ids ++ [i]).Nodup := by
  induction chain with
  | top => exact List.nodup_singleton _
  | @child i p ids h rest ih =>
    have own := (Chain.child h rest).not_mem_self
    refine List.nodup_append.mpr ⟨ih, List.nodup_singleton _, fun a mem b last => ?_⟩
    rw [List.mem_singleton.mp last]
    rintro rfl
    exact own mem

theorem Chain.mem_of_transGen (chain : Chain parent i ids)
    (path : Relation.TransGen (Points parent) i j) : j ∈ ids := by
  induction chain with
  | top h =>
    obtain ⟨p, first, -⟩ := Relation.TransGen.head'_iff.mp path
    rw [Points, h] at first
    cases first
  | @child i p ids h rest ih =>
    obtain ⟨q, first, more⟩ := Relation.TransGen.head'_iff.mp path
    rw [Points, h, Option.some.injEq] at first
    subst first
    obtain same | more := Relation.reflTransGen_iff_eq_or_transGen.mp more
    · rw [same]
      exact List.mem_append_right _ (List.mem_singleton_self _)
    · exact List.mem_append_left _ (ih more)

theorem Chain.acyclic (chain : Chain parent i ids) : ¬Relation.TransGen (Points parent) i i :=
  fun cycle => chain.not_mem_self (chain.mem_of_transGen cycle)

theorem Chain.transGen_of_mem (chain : Chain parent i ids) (mem : j ∈ ids) :
    Relation.TransGen (Points parent) i j := by
  induction chain with
  | top => cases mem
  | @child i p ids h rest ih =>
    obtain mem | last := List.mem_append.mp mem
    · exact (ih mem).head h
    · rw [List.mem_singleton.mp last]
      exact .single h

/-- A node is at or below another one exactly when that one is on its way to the root. -/
theorem Chain.reflTransGen_iff (chain : Chain parent i ids) :
    Relation.ReflTransGen (Points parent) i j ↔ j ∈ ids ++ [i] := by
  rw [Relation.reflTransGen_iff_eq_or_transGen, List.mem_append, List.mem_singleton, or_comm]
  exact or_congr_left ⟨chain.mem_of_transGen, chain.transGen_of_mem⟩

/-- The chains that start with a node and all that is above it are those that contain the node. -/
theorem Chain.prefix_iff (chain : Chain parent i ids) (up : Chain parent j above) :
    above ++ [j] <+: ids ↔ j ∈ ids := by
  constructor
  · intro start
    exact start.subset (List.mem_append_right _ (List.mem_singleton_self j))
  · intro mem
    obtain ⟨own, below, chain', rfl⟩ := chain.of_mem mem
    rw [up.unique chain']
    exact ⟨below, by simp⟩

/-! ## Another parent -/

/-- The chain of a node that is under `q`. -/
inductive Under (parent : ι → Option ι) : Option ι → List ι → Prop
  | top : Under parent none []
  | node {q : ι} {ids : List ι} : Chain parent q ids → Under parent (some q) (ids ++ [q])

section
variable [DecidableEq ι] {q : Option ι} {moved : List ι}

/-- What is not below the moved node stays where it is. -/
theorem Chain.update_of_not_mem (chain : Chain parent i ids) (other : i ≠ m) (outside : m ∉ ids) :
    Chain (Function.update parent m q) i ids := by
  refine chain.congr (Function.update_of_ne other _ _) fun j mem => ?_
  refine Function.update_of_ne ?_ _ _
  rintro rfl
  exact outside mem

/-- A node can be moved under a node that is not below it. -/
theorem Under.update (under : Under parent q moved) (outside : m ∉ moved) :
    Chain (Function.update parent m q) m moved := by
  cases under with
  | top => exact .top (Function.update_self ..)
  | @node q ids chain =>
    refine .child (Function.update_self ..) (chain.update_of_not_mem ?_ ?_)
    · rintro rfl
      exact outside (List.mem_append_right _ (List.mem_singleton_self _))
    · exact fun mem => outside (List.mem_append_left _ mem)

/-- What is below the moved node moves with it. -/
theorem Chain.update_of_mem (up : Chain parent m above) (under : Under parent q moved)
    (outside : m ∉ moved) {below : List ι} (chain : Chain parent i (above ++ m :: below)) :
    Chain (Function.update parent m q) i (moved ++ m :: below) := by
  have other : i ≠ m := by
    rintro rfl
    exact chain.not_mem_self (by simp)
  induction below using List.reverseRecOn generalizing i with
  | nil =>
    obtain ⟨h, -⟩ := chain.of_concat
    exact .child ((Function.update_of_ne other _ _).trans h) (under.update outside)
  | append_singleton below p ih =>
    rw [← List.cons_append, ← List.append_assoc] at chain ⊢
    obtain ⟨h, rest⟩ := chain.of_concat
    refine .child ((Function.update_of_ne other _ _).trans h) (ih rest ?_)
    rintro rfl
    exact rest.not_mem_self (by simp)

end

end Ancestry
