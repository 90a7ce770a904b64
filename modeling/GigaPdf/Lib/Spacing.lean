import Mathlib.Algebra.Order.Group.Abs

/-!
# Spaced points

Points on a line that are kept in their order and more than a tolerance apart. A point joins them,
at the place that a binary search finds, when none of them is within the tolerance of it; so every
point that came is within the tolerance of one of them.
-/

namespace Spacing

variable {K : Type*}

/-! ## Binary search -/

section
variable [LinearOrder K] (points : List K) (x : K)

/-- The place between `lo` and `hi` at which the points are no longer below `x`. -/
def lowerBound : Nat → Nat → Nat → Nat
  | 0, lo, _ => lo
  | fuel + 1, lo, hi =>
    if lo < hi then
      if points[(lo + hi) / 2]?.any (fun p => decide (p < x)) then
        lowerBound fuel ((lo + hi) / 2 + 1) hi
      else lowerBound fuel lo ((lo + hi) / 2)
    else lo

/-- What stands before the place is below `x`, and nothing else is. -/
structure Bound (place : Nat) : Prop where
  below : ∀ p ∈ points.take place, p < x
  above : ∀ p ∈ points.drop place, x ≤ p

variable {points x}

theorem bound_lowerBound (sorted : points.Pairwise (· < ·)) {fuel lo hi : Nat}
    (enough : hi ≤ lo + fuel) (order : lo ≤ hi) (inside : hi ≤ points.length)
    (below : ∀ p ∈ points.take lo, p < x) (above : ∀ p ∈ points.drop hi, x ≤ p) :
    Bound points x (lowerBound points x fuel lo hi) := by
  induction fuel generalizing lo hi with
  | zero =>
    obtain rfl : hi = lo := by omega
    exact ⟨below, above⟩
  | succ fuel ih =>
    rw [lowerBound]
    by_cases more : lo < hi
    · have middle : (lo + hi) / 2 < points.length := by omega
      have here : points[(lo + hi) / 2]? = some points[(lo + hi) / 2] :=
        List.getElem?_eq_getElem middle
      have ordered := List.pairwise_iff_getElem.mp sorted
      rw [if_pos more, here, Option.any_some]
      by_cases less : points[(lo + hi) / 2] < x
      · rw [if_pos (decide_eq_true less)]
        apply ih (by omega) (by omega) inside _ above
        intro p mem
        obtain ⟨i, bound, rfl⟩ := List.mem_take_iff_getElem.mp mem
        by_cases last : i = (lo + hi) / 2
        · simpa only [last] using less
        · exact (ordered i _ _ middle (by omega)).trans less
      · rw [if_neg (by simpa using less)]
        apply ih (by omega) (by omega) (by omega) below
        intro p mem
        obtain ⟨i, bound, rfl⟩ := List.mem_drop_iff_getElem.mp mem
        apply (not_lt.mp less).trans
        by_cases first : i = 0
        · simp only [first, Nat.add_zero, le_refl]
        · exact (ordered _ _ middle (by omega) (by omega)).le
    · rw [if_neg more]
      obtain rfl : hi = lo := by omega
      exact ⟨below, above⟩

variable (points x)

def insertSorted : List K :=
  let place := lowerBound points x points.length 0 points.length
  points.take place ++ x :: points.drop place

variable {points x}

theorem mem_insertSorted {p : K} : p ∈ insertSorted points x ↔ p = x ∨ p ∈ points := by
  have whole := List.take_append_drop (lowerBound points x points.length 0 points.length) points
  rw [insertSorted, List.mem_append, List.mem_cons, or_left_comm, ← List.mem_append, whole]

theorem bound_insertSorted (sorted : points.Pairwise (· < ·)) :
    Bound points x (lowerBound points x points.length 0 points.length) := by
  apply bound_lowerBound sorted (by omega) (Nat.zero_le _) le_rfl
  · intro p mem
    rw [List.take_zero] at mem
    cases mem
  · intro p mem
    rw [List.drop_length] at mem
    cases mem

end

/-! ## Points apart -/

section
variable [AddCommGroup K] [LinearOrder K]

/-- In their order, and more than the tolerance apart. -/
def Spaced (tol : K) (points : List K) : Prop := points.Pairwise fun p q => p < q ∧ tol < q - p

def Near (tol x p : K) : Prop := |p - x| ≤ tol

variable {tol x : K} {points : List K}

theorem Spaced.sorted (spaced : Spaced tol points) : points.Pairwise (· < ·) :=
  spaced.imp And.left

/-! ## The nearest point -/

/-- Whether a point of the list replaces the best one so far. -/
def nearestFrom (x : K) : Nat → Nat × K → List K → Nat
  | _, best, [] => best.1
  | i, best, p :: rest =>
    nearestFrom x (i + 1) (if |p - x| < best.2 then (i, |p - x|) else best) rest

def nearest (points : List K) (x : K) : Option Nat :=
  match points with
  | [] => none
  | p :: rest => some (nearestFrom x 1 (0, |p - x|) rest)

/-- The index is that of a point of which no other is nearer to `x`. -/
def Nearest (points : List K) (x : K) (i : Nat) : Prop :=
  ∃ p, points[i]? = some p ∧ ∀ q ∈ points, |p - x| ≤ |q - x|

theorem nearestFrom_nearest {before rest : List K} {best : Nat} {p : K}
    (here : before[best]? = some p) (least : ∀ q ∈ before, |p - x| ≤ |q - x|) :
    Nearest (before ++ rest) x (nearestFrom x before.length (best, |p - x|) rest) := by
  induction rest generalizing before best p with
  | nil =>
    rw [List.append_nil]
    exact ⟨p, here, least⟩
  | cons q rest ih =>
    have step : before ++ q :: rest = (before ++ [q]) ++ rest := by simp
    have length : before.length + 1 = (before ++ [q]).length := by simp
    rw [nearestFrom, step, length]
    split
    · rename_i nearer
      apply ih
      · simp
      · intro r mem
        obtain mem | mem := List.mem_append.mp mem
        · exact nearer.le.trans (least r mem)
        · rw [List.mem_singleton.mp mem]
    · rename_i farther
      apply ih
      · rw [List.getElem?_append_left (List.getElem?_eq_some_iff.mp here).1, here]
      · intro r mem
        obtain mem | mem := List.mem_append.mp mem
        · exact least r mem
        · rw [List.mem_singleton.mp mem]
          exact not_lt.mp farther

theorem exists_nearest (nonempty : points ≠ []) :
    ∃ i, nearest points x = some i ∧ Nearest points x i := by
  cases points with
  | nil => exact absurd rfl nonempty
  | cons p rest =>
    refine ⟨_, rfl, @nearestFrom_nearest _ _ _ x [p] rest 0 p rfl ?_⟩
    intro q mem
    rw [List.mem_singleton.mp mem]

/-- The nearest point is near, if one is. -/
theorem Nearest.near {i : Nat} (nearest : Nearest points x i) (near : ∃ p ∈ points, Near tol x p) :
    ∃ p, points[i]? = some p ∧ Near tol x p := by
  obtain ⟨p, here, least⟩ := nearest
  obtain ⟨q, mem, near⟩ := near
  exact ⟨p, here, (least q mem).trans near⟩

/-! ## A new point -/

variable [IsOrderedAddMonoid K]

theorem spaced_insertSorted (nonneg : 0 ≤ tol) (spaced : Spaced tol points)
    (far : ∀ p ∈ points, ¬Near tol x p) : Spaced tol (insertSorted points x) := by
  have bound := @bound_insertSorted _ _ _ x spaced.sorted
  rw [insertSorted]
  generalize lowerBound points x points.length 0 points.length = place at bound
  have before : ∀ p ∈ points.take place, p < x ∧ tol < x - p := by
    intro p mem
    have less := bound.below p mem
    have apart := far p (List.mem_of_mem_take mem)
    rw [Near, not_le, abs_sub_comm, abs_of_pos (sub_pos.mpr less)] at apart
    exact ⟨less, apart⟩
  have after : ∀ p ∈ points.drop place, x < p ∧ tol < p - x := by
    intro p mem
    have apart := far p (List.mem_of_mem_drop mem)
    rw [Near, not_le, abs_of_nonneg (sub_nonneg.mpr (bound.above p mem))] at apart
    exact ⟨sub_pos.mp (nonneg.trans_lt apart), apart⟩
  have halves : Spaced tol (points.take place ++ points.drop place) := by
    rw [List.take_append_drop]
    exact spaced
  obtain ⟨low, high, -⟩ := List.pairwise_append.mp halves
  apply List.pairwise_append.mpr
  refine ⟨low, List.pairwise_cons.mpr ⟨after, high⟩, ?_⟩
  intro p early q late
  obtain ⟨less, apart⟩ := before p early
  obtain rfl | late := List.mem_cons.mp late
  · exact ⟨less, apart⟩
  · obtain ⟨less', apart'⟩ := after q late
    exact ⟨less.trans less', apart.trans (sub_lt_sub_right less' p)⟩

end

end Spacing
