import Mathlib.Algebra.Order.Field.Basic
import Mathlib.Algebra.Order.Group.MinMax
import Mathlib.Data.Set.Image
import Mathlib.Data.Set.Prod

/-!
# Axis-parallel rectangles

A rectangle is a corner with the least coordinates, a width and a height, and stands for the set
of its points: none when a side is negative. Quarter turns and reflections carry rectangles to
rectangles, which are also the bounding boxes of the images of the corners.
-/

structure Rect (K : Type*) where
  x : K
  y : K
  width : K
  height : K
deriving DecidableEq

namespace Rect

variable {K : Type*} [AddCommGroup K]

/-! ## Motions -/

/-- The image under the exchange of the axes. -/
def swap (r : Rect K) : Rect K := ⟨r.y, r.x, r.height, r.width⟩

/-- The image under `p ↦ (a - p.1, p.2)`. -/
def reflectX (a : K) (r : Rect K) : Rect K := ⟨a - r.x - r.width, r.y, r.width, r.height⟩

/-- The image under `p ↦ (p.1, a - p.2)`. -/
def reflectY (a : K) (r : Rect K) : Rect K := ⟨r.x, a - r.y - r.height, r.width, r.height⟩

def flipX (a : K) (p : K × K) : K × K := (a - p.1, p.2)

def flipY (a : K) (p : K × K) : K × K := (p.1, a - p.2)

theorem flipX_flipX (a : K) (p : K × K) : flipX a (flipX a p) = p := by simp [flipX]

theorem flipY_flipY (a : K) (p : K × K) : flipY a (flipY a p) = p := by simp [flipY]

theorem reflectX_reflectX (a : K) (r : Rect K) : (r.reflectX a).reflectX a = r := by
  simp [reflectX, sub_sub]

theorem reflectY_reflectY (a : K) (r : Rect K) : (r.reflectY a).reflectY a = r := by
  simp [reflectY, sub_sub]

/-! ## Points -/

section
variable [LinearOrder K]

def points (r : Rect K) : Set (K × K) :=
  { p | (r.x ≤ p.1 ∧ p.1 ≤ r.x + r.width) ∧ r.y ≤ p.2 ∧ p.2 ≤ r.y + r.height }

theorem mem_points {r : Rect K} {p : K × K} :
    p ∈ r.points ↔ (r.x ≤ p.1 ∧ p.1 ≤ r.x + r.width) ∧ r.y ≤ p.2 ∧ p.2 ≤ r.y + r.height :=
  Iff.rfl

/-- No side is negative. -/
def Proper (r : Rect K) : Prop := 0 ≤ r.width ∧ 0 ≤ r.height

instance (r : Rect K) : Decidable r.Proper := by
  unfold Proper
  infer_instance

@[simp] theorem proper_swap {r : Rect K} : r.swap.Proper ↔ r.Proper := and_comm

@[simp] theorem proper_reflectX {a : K} {r : Rect K} : (r.reflectX a).Proper ↔ r.Proper := Iff.rfl

@[simp] theorem proper_reflectY {a : K} {r : Rect K} : (r.reflectY a).Proper ↔ r.Proper := Iff.rfl

theorem image_swap (r : Rect K) : Prod.swap '' r.points = r.swap.points := by
  rw [Set.image_swap_eq_preimage_swap]
  ext p
  exact and_comm

/-- The bounding box of four points. -/
def hull (a b c d : K × K) : Rect K :=
  let left := min (min (min a.1 b.1) c.1) d.1
  let right := max (max (max a.1 b.1) c.1) d.1
  let bottom := min (min (min a.2 b.2) c.2) d.2
  let top := max (max (max a.2 b.2) c.2) d.2
  ⟨left, bottom, right - left, top - bottom⟩

theorem hull_swap (a b c d : K × K) : hull a.swap b.swap c.swap d.swap = (hull a b c d).swap := rfl

end

variable [LinearOrder K] [IsOrderedAddMonoid K]

theorem corner_mem {r : Rect K} (proper : r.Proper) : (r.x, r.y) ∈ r.points := by
  have right : r.x ≤ r.x + r.width := le_add_of_nonneg_right proper.1
  have top : r.y ≤ r.y + r.height := le_add_of_nonneg_right proper.2
  exact ⟨⟨le_refl _, right⟩, le_refl _, top⟩

theorem far_corner_mem {r : Rect K} (proper : r.Proper) :
    (r.x + r.width, r.y + r.height) ∈ r.points := by
  have right : r.x ≤ r.x + r.width := le_add_of_nonneg_right proper.1
  have top : r.y ≤ r.y + r.height := le_add_of_nonneg_right proper.2
  exact ⟨⟨right, le_refl _⟩, top, le_refl _⟩

theorem points_eq_empty {r : Rect K} (improper : ¬ r.Proper) : r.points = ∅ := by
  apply Set.eq_empty_of_forall_notMem
  rintro p ⟨⟨left, right⟩, bottom, top⟩
  apply improper
  have width : r.x ≤ r.x + r.width := left.trans right
  have height : r.y ≤ r.y + r.height := bottom.trans top
  exact ⟨le_add_iff_nonneg_right _ |>.mp width, le_add_iff_nonneg_right _ |>.mp height⟩

theorem hull_flipX (k : K) (a b c d : K × K) :
    hull (flipX k a) (flipX k b) (flipX k c) (flipX k d) = (hull a b c d).reflectX k := by
  simp only [hull, flipX, reflectX, min_sub_sub_left, max_sub_sub_left, mk.injEq, and_true,
    true_and]
  constructor
  · rw [sub_sub, add_sub_cancel]
  · rw [sub_sub_sub_cancel_left]

theorem hull_flipY (k : K) (a b c d : K × K) :
    hull (flipY k a) (flipY k b) (flipY k c) (flipY k d) = (hull a b c d).reflectY k := by
  simp only [hull, flipY, reflectY, min_sub_sub_left, max_sub_sub_left, mk.injEq, true_and]
  constructor
  · rw [sub_sub, add_sub_cancel]
  · rw [sub_sub_sub_cancel_left]

/-- A proper rectangle is the bounding box of its corners. -/
theorem hull_corners {r : Rect K} (proper : r.Proper) :
    hull (r.x, r.y) (r.x + r.width, r.y) (r.x + r.width, r.y + r.height) (r.x, r.y + r.height) =
      r := by
  have right : r.x ≤ r.x + r.width := le_add_of_nonneg_right proper.1
  have top : r.y ≤ r.y + r.height := le_add_of_nonneg_right proper.2
  simp [hull, right, top]

/-- The points of a proper rectangle determine it. -/
theorem eq_of_points_eq {r s : Rect K} (proper : r.Proper) (same : r.points = s.points) :
    r = s := by
  have near : (r.x, r.y) ∈ s.points := same ▸ corner_mem proper
  have far : (r.x + r.width, r.y + r.height) ∈ s.points := same ▸ far_corner_mem proper
  have proper' : s.Proper := by
    by_contra improper
    rw [points_eq_empty improper] at near
    exact near
  have near' : (s.x, s.y) ∈ r.points := same ▸ corner_mem proper'
  have far' : (s.x + s.width, s.y + s.height) ∈ r.points := same ▸ far_corner_mem proper'
  have x : r.x = s.x := le_antisymm near'.1.1 near.1.1
  have y : r.y = s.y := le_antisymm near'.2.1 near.2.1
  have right : r.x + r.width = s.x + s.width := le_antisymm far.1.2 far'.1.2
  have top : r.y + r.height = s.y + s.height := le_antisymm far.2.2 far'.2.2
  rw [x] at right
  rw [y] at top
  cases r
  cases s
  simp only [mk.injEq]
  exact ⟨x, y, add_left_cancel right, add_left_cancel top⟩

theorem points_eq_iff {r s : Rect K} (proper : r.Proper) : r.points = s.points ↔ r = s := by
  constructor
  · exact eq_of_points_eq proper
  · rintro rfl
    rfl

/-! ## Images -/

theorem image_flipX (a : K) (r : Rect K) : flipX a '' r.points = (r.reflectX a).points := by
  rw [Set.image_eq_preimage_of_inverse (flipX_flipX a) (flipX_flipX a)]
  ext p
  have left : r.x ≤ a - p.1 ↔ p.1 ≤ a - r.x - r.width + r.width := by
    rw [sub_add_cancel, le_sub_comm]
  have right : a - p.1 ≤ r.x + r.width ↔ a - r.x - r.width ≤ p.1 := by
    rw [sub_sub, sub_le_comm]
  simp only [Set.mem_preimage, mem_points, flipX, reflectX, left, right]
  rw [and_comm (a := _ ≤ _) (b := a - r.x - r.width ≤ p.1)]

theorem image_flipY (a : K) (r : Rect K) : flipY a '' r.points = (r.reflectY a).points := by
  rw [Set.image_eq_preimage_of_inverse (flipY_flipY a) (flipY_flipY a)]
  ext p
  have bottom : r.y ≤ a - p.2 ↔ p.2 ≤ a - r.y - r.height + r.height := by
    rw [sub_add_cancel, le_sub_comm]
  have top : a - p.2 ≤ r.y + r.height ↔ a - r.y - r.height ≤ p.2 := by
    rw [sub_sub, sub_le_comm]
  simp only [Set.mem_preimage, mem_points, flipY, reflectY, bottom, top]
  rw [and_comm (a := _ ≤ _) (b := a - r.y - r.height ≤ p.2)]

/-- The sides of a bounding box are not negative. -/
theorem hull_proper (a b c d : K × K) : (hull a b c d).Proper := by
  constructor
  · apply sub_nonneg.mpr
    exact (min_le_right _ _).trans (le_max_right _ _)
  · apply sub_nonneg.mpr
    exact (min_le_right _ _).trans (le_max_right _ _)

/-! ## Scaling -/

section
variable {F : Type*} [Field F]

def scale (k : F) (r : Rect F) : Rect F := ⟨r.x * k, r.y * k, r.width * k, r.height * k⟩

def scalePoint (k : F) (p : F × F) : F × F := (p.1 * k, p.2 * k)

theorem scalePoint_scalePoint {k l : F} (unit : k * l = 1) (p : F × F) :
    scalePoint l (scalePoint k p) = p := by
  simp [scalePoint, mul_assoc, unit]

theorem scale_scale {k l : F} (unit : k * l = 1) (r : Rect F) : (r.scale k).scale l = r := by
  simp [scale, mul_assoc, unit]

variable [LinearOrder F] [IsStrictOrderedRing F]

theorem scale_proper {k : F} (positive : 0 ≤ k) {r : Rect F} (proper : r.Proper) :
    (r.scale k).Proper := ⟨mul_nonneg proper.1 positive, mul_nonneg proper.2 positive⟩

theorem hull_scalePoint {k : F} (positive : 0 ≤ k) (a b c d : F × F) :
    hull (scalePoint k a) (scalePoint k b) (scalePoint k c) (scalePoint k d) =
      (hull a b c d).scale k := by
  simp only [hull, scalePoint, scale, min_mul_of_nonneg _ _ positive,
    max_mul_of_nonneg _ _ positive, sub_mul]

theorem image_scalePoint {k : F} (positive : 0 < k) (r : Rect F) :
    scalePoint k '' r.points = (r.scale k).points := by
  have unit : k * k⁻¹ = 1 := mul_inv_cancel₀ (ne_of_gt positive)
  have unit' : k⁻¹ * k = 1 := inv_mul_cancel₀ (ne_of_gt positive)
  rw [Set.image_eq_preimage_of_inverse (scalePoint_scalePoint unit) (scalePoint_scalePoint unit')]
  ext p
  simp only [Set.mem_preimage, mem_points, scalePoint, scale, ← div_eq_mul_inv, le_div_iff₀ positive,
    div_le_iff₀ positive, add_mul]

end

end Rect
