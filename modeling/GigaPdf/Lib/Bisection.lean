import Mathlib.Algebra.Order.Field.Basic
import Mathlib.Tactic.Linarith
import GigaPdf.Lib.Spacing

/-!
# Bisection for the nearest point

A binary search that remembers the nearest point it has probed. Each probe lets go of the points on
one side of it, which are farther away than the probe, so the nearest probe is the nearest point.
-/

namespace Bisection

open Spacing

variable {K : Type*} [LinearOrder K]

/-! ## The best so far -/

/-- A place and its distance, if it is nearer than the best so far. -/
def nearer (best : Nat × Option K) (i : Nat) (dist : K) : Nat × Option K :=
  if best.2.all fun d => decide (dist < d) then (i, some dist) else best

theorem nearer_cases (best : Nat × Option K) (i : Nat) (dist : K) :
    nearer best i dist = (i, some dist) ∨ nearer best i dist = best := by
  rw [nearer]
  split
  · exact .inl rfl
  · exact .inr rfl

theorem nearer_least (best : Nat × Option K) (i : Nat) (dist : K) :
    ∃ d ∈ (nearer best i dist).2, d ≤ dist ∧ ∀ d' ∈ best.2, d ≤ d' := by
  rw [nearer]
  split
  · rename_i near
    refine ⟨dist, rfl, le_rfl, fun d' mem => ?_⟩
    exact (of_decide_eq_true ((Option.all_eq_true _ _).mp near d' mem)).le
  · rename_i far
    cases held : best.2 with
    | none => simp [held] at far
    | some d =>
      simp only [held, Option.all_some, decide_eq_true_eq, not_lt] at far
      exact ⟨d, rfl, far, fun d' mem => (Option.some_inj.mp mem).le⟩

theorem ordered {points : List K} (sorted : points.Pairwise (· < ·)) {i j : Nat} {p q : K}
    (here : points[i]? = some p) (there : points[j]? = some q) (order : i ≤ j) : p ≤ q := by
  obtain ⟨inside, rfl⟩ := List.getElem?_eq_some_iff.mp here
  obtain ⟨inside', rfl⟩ := List.getElem?_eq_some_iff.mp there
  obtain rfl | less := order.eq_or_lt
  · exact le_rfl
  · exact (List.pairwise_iff_getElem.mp sorted i j inside inside' less).le

/-! ## The search -/

variable [Field K] (points : List K) (x : K)

/-- The search in the places from `lo` on that are before `stop`. -/
def search : Nat → Nat → Nat → Nat × Option K → Nat
  | 0, _, _, best => best.1
  | fuel + 1, lo, stop, best =>
    if lo < stop then
      let mid := (lo + (stop - 1)) / 2
      match points[mid]? with
      | none => best.1
      | some p =>
        let best := nearer best mid |p - x|
        if p = x then mid
        else if p < x then search fuel (mid + 1) stop best
        else search fuel lo mid best
    else best.1

/-- The best probe is a point, and no point outside the interval is nearer. -/
structure Narrowed (lo stop : Nat) (best : Nat × Option K) : Prop where
  probed : ∀ d ∈ best.2, ∃ p, points[best.1]? = some p ∧ |p - x| = d
  outside : ∀ i p, points[i]? = some p → i < lo ∨ stop ≤ i → ∃ d ∈ best.2, d ≤ |p - x|

variable {points x}

/-- A probe takes the place of an interval of which no point is nearer. -/
theorem Narrowed.probe {lo stop lo' stop' mid : Nat} {best : Nat × Option K} {p : K}
    (narrowed : Narrowed points x lo stop best) (here : points[mid]? = some p)
    (covered : ∀ i q, points[i]? = some q → i < lo' ∨ stop' ≤ i →
      (i < lo ∨ stop ≤ i) ∨ |p - x| ≤ |q - x|) :
    Narrowed points x lo' stop' (nearer best mid |p - x|) := by
  obtain ⟨least, isLeast, atProbe, atBest⟩ := nearer_least best mid |p - x|
  constructor
  · intro d mem
    obtain new | old := nearer_cases best mid |p - x|
    · rw [new] at mem ⊢
      exact ⟨p, here, Option.some_inj.mp mem⟩
    · rw [old] at mem ⊢
      exact narrowed.probed d mem
  · intro i q there out
    obtain before | far := covered i q there out
    · obtain ⟨d, mem, le⟩ := narrowed.outside i q there before
      exact ⟨least, isLeast, (atBest d mem).trans le⟩
    · exact ⟨least, isLeast, atProbe.trans far⟩

/-- When the interval is empty, the best probe is the nearest point. -/
theorem Narrowed.nearest {lo stop : Nat} {best : Nat × Option K} (nonempty : points ≠ [])
    (narrowed : Narrowed points x lo stop best) (closed : stop ≤ lo) :
    Nearest points x best.1 := by
  have outside (i : Nat) (p : K) (there : points[i]? = some p) : ∃ d ∈ best.2, d ≤ |p - x| :=
    narrowed.outside i p there (by omega)
  obtain ⟨first, rest, rfl⟩ := List.exists_cons_of_ne_nil nonempty
  obtain ⟨d, held, -⟩ := outside 0 first rfl
  obtain ⟨p, here, dist⟩ := narrowed.probed d held
  refine ⟨p, here, fun q mem => ?_⟩
  obtain ⟨i, there⟩ := List.mem_iff_getElem?.mp mem
  obtain ⟨d', held', le⟩ := outside i q there
  rw [dist, Option.mem_unique held held']
  exact le

variable [IsStrictOrderedRing K]

/-- What stands before a probe that is below `x` is farther away. -/
theorem farther_below {p q : K} (below : p < x) (before : q ≤ p) : |p - x| ≤ |q - x| := by
  rw [abs_of_neg (by linarith), abs_of_neg (by linarith)]
  linarith

theorem farther_above {p q : K} (above : x < p) (after : p ≤ q) : |p - x| ≤ |q - x| := by
  rw [abs_of_pos (by linarith), abs_of_pos (by linarith)]
  linarith

theorem search_narrowed (sorted : points.Pairwise (· < ·)) (nonempty : points ≠ [])
    {fuel lo stop : Nat} {best : Nat × Option K} (enough : stop ≤ lo + fuel)
    (inside : stop ≤ points.length) (narrowed : Narrowed points x lo stop best) :
    Nearest points x (search points x fuel lo stop best) := by
  induction fuel generalizing lo stop best with
  | zero => exact narrowed.nearest nonempty (by omega)
  | succ fuel ih =>
    rw [search]
    by_cases more : lo < stop
    · rw [if_pos more]
      dsimp only
      obtain ⟨p, here⟩ : ∃ p, points[(lo + (stop - 1)) / 2]? = some p :=
        ⟨_, List.getElem?_eq_getElem (by omega)⟩
      simp only [here]
      split
      · rename_i found
        refine ⟨p, here, fun q _ => ?_⟩
        rw [found, sub_self, abs_zero]
        exact abs_nonneg _
      · rename_i apart
        split
        · rename_i below
          apply ih (by omega) inside
          apply narrowed.probe here
          intro i q there out
          by_cases before : i ≤ (lo + (stop - 1)) / 2
          · exact .inr (farther_below below (ordered sorted there here before))
          · exact .inl (by omega)
        · rename_i above
          have above : x < p := lt_of_le_of_ne (not_lt.mp above) (Ne.symm apart)
          apply ih (by omega) (by omega)
          apply narrowed.probe here
          intro i q there out
          by_cases after : (lo + (stop - 1)) / 2 ≤ i
          · exact .inr (farther_above above (ordered sorted here there after))
          · exact .inl (by omega)
    · rw [if_neg more]
      exact narrowed.nearest nonempty (by omega)

/-- The search finds a nearest point. -/
theorem search_nearest (sorted : points.Pairwise (· < ·)) (nonempty : points ≠ []) :
    Nearest points x (search points x points.length 0 points.length (0, none)) := by
  apply search_narrowed sorted nonempty (by omega) le_rfl
  constructor
  · intro d mem
    cases mem
  · intro i p there out
    have inside := (List.getElem?_eq_some_iff.mp there).1
    omega

/-- The nearest points of two places stand in the order of the places. -/
theorem nearest_mono (sorted : points.Pairwise (· < ·)) {y : K} {i j : Nat} (less : x < y)
    (first : Nearest points x i) (second : Nearest points y j) : i ≤ j := by
  obtain ⟨p, here, least⟩ := first
  obtain ⟨q, there, least'⟩ := second
  by_contra back
  obtain ⟨inside, rfl⟩ := List.getElem?_eq_some_iff.mp here
  obtain ⟨inside', rfl⟩ := List.getElem?_eq_some_iff.mp there
  have apart := List.pairwise_iff_getElem.mp sorted j i inside' inside (not_le.mp back)
  -- The middle between the two points is not before the first place, and not behind the second.
  have early := least _ (List.getElem_mem inside')
  have late := least' _ (List.getElem_mem inside)
  have low : points[i] + points[j] ≤ 2 * x := by
    obtain above | below := le_total x points[j]
    · rw [abs_of_nonneg (by linarith), abs_of_nonneg (by linarith)] at early
      linarith
    · rw [abs_of_nonpos (sub_nonpos.mpr below)] at early
      linarith [le_abs_self (points[i] - x)]
  have high : 2 * y ≤ points[i] + points[j] := by
    obtain above | below := le_total y points[i]
    · rw [abs_of_nonneg (sub_nonneg.mpr above)] at late
      linarith [neg_abs_le (points[j] - y)]
    · rw [abs_of_nonpos (by linarith), abs_of_nonpos (by linarith)] at late
      linarith
  linarith

end Bisection
