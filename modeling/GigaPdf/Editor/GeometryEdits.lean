import GigaPdf.Editor.SceneGraph
import Mathlib.Tactic.FieldSimp
import Mathlib.Tactic.Ring

/-!
# Moving and resizing images and shapes

What the matrix of `computeAffineMatrix` does in the frame of each kind of element, and which
updates of a box reach the engine.
-/

namespace GigaPdf

/-! ## Matrices as maps of the plane -/

namespace AffineMatrix

/-- `[x, y, 1]` times the matrix. -/
def apply (m : AffineMatrix) (p : ℚ × ℚ) : ℚ × ℚ :=
  (m.a * p.1 + m.c * p.2 + m.e, m.b * p.1 + m.d * p.2 + m.f)

/-- The product `m · n`: first `m`, then `n`. -/
def followedBy (m n : AffineMatrix) : AffineMatrix where
  a := m.a * n.a + m.b * n.c
  b := m.a * n.b + m.b * n.d
  c := m.c * n.a + m.d * n.c
  d := m.c * n.b + m.d * n.d
  e := m.e * n.a + m.f * n.c + n.e
  f := m.e * n.b + m.f * n.d + n.f

theorem apply_followedBy (m n : AffineMatrix) (p : ℚ × ℚ) :
    (m.followedBy n).apply p = n.apply (m.apply p) := by
  simp only [apply, followedBy, Prod.mk.injEq]
  constructor <;> ring

theorem followedBy_assoc (m n k : AffineMatrix) :
    (m.followedBy n).followedBy k = m.followedBy (n.followedBy k) := by
  simp only [followedBy, mk.injEq]
  refine ⟨?_, ?_, ?_, ?_, ?_, ?_⟩ <;> ring

/-- A scaling along the axes and a translation: no rotation, no shear. -/
def AxisAligned (m : AffineMatrix) : Prop := m.b = 0 ∧ m.c = 0

section
variable {m m' n n' : AffineMatrix}

theorem followedBy_right_cancel (aligned : n.AxisAligned) (wide : n.a ≠ 0) (tall : n.d ≠ 0)
    (same : m.followedBy n = m'.followedBy n) : m = m' := by
  obtain ⟨shear, shear'⟩ := aligned
  simp only [followedBy, shear, shear', mul_zero, add_zero, zero_add, mk.injEq, add_left_inj,
    mul_left_inj' wide, mul_left_inj' tall] at same
  obtain ⟨a, b, c, d, e, f⟩ := same
  exact (AffineMatrix.mk.injEq ..).mpr ⟨a, b, c, d, e, f⟩

theorem followedBy_left_cancel (aligned : m.AxisAligned) (wide : m.a ≠ 0) (tall : m.d ≠ 0)
    (same : m.followedBy n = m.followedBy n') : n = n' := by
  obtain ⟨shear, shear'⟩ := aligned
  simp only [followedBy, shear, shear', zero_mul, add_zero, zero_add, mk.injEq,
    mul_right_inj' wide, mul_right_inj' tall] at same
  obtain ⟨a, b, c, d, e, f⟩ := same
  rw [a, c, add_right_inj] at e
  rw [b, d, add_right_inj] at f
  exact (AffineMatrix.mk.injEq ..).mpr ⟨a, b, c, d, e, f⟩

end

end AffineMatrix

/-- The matrix `cm` by which an image, drawn as the unit square, fills a box. -/
def cm (b : Bounds) : AffineMatrix := ⟨b.width, 0, 0, b.height, b.x, b.y⟩

theorem cm_axisAligned (b : Bounds) : (cm b).AxisAligned := ⟨rfl, rfl⟩

def corners (b : Bounds) : List (ℚ × ℚ) :=
  [(b.x, b.y), (b.x + b.width, b.y), (b.x, b.y + b.height), (b.x + b.width, b.y + b.height)]

/-- A box is the unit square as it is placed there. -/
theorem corners_eq_map_cm (b : Bounds) :
    corners b = [(0, 0), (1, 0), (0, 1), (1, 1)].map (cm b).apply := by
  simp [corners, cm, AffineMatrix.apply, add_comm]

/-- A matrix that places a box anew moves its corners to the new corners. -/
theorem map_corners {m : AffineMatrix} {old new : Bounds}
    (placed : (cm old).followedBy m = cm new) :
    (corners old).map m.apply = corners new := by
  rw [corners_eq_map_cm, corners_eq_map_cm, List.map_map, ← placed]
  exact List.map_congr_left fun p _ => (AffineMatrix.apply_followedBy _ _ p).symm

/-- What a matrix has to do to take one box to the other: an image has it before its placement,
in units of its own size, and a shape on the page. -/
def MapsBox (image : Bool) (m : AffineMatrix) (old new : Bounds) : Prop :=
  if image then m.followedBy (cm old) = cm new
  else (cm old).followedBy m = cm new

/-! ## The matrix of a move or resize -/

/-- The old box has an extent, and the scale or the translation is large enough to be seen. -/
def GeometryTold (old new : Bounds) : Prop :=
  0 < old.width ∧ 0 < old.height ∧
    (1 / 1000 ≤ |new.width / old.width - 1| ∨ 1 / 1000 ≤ |new.height / old.height - 1| ∨
      moveTolerance < |new.x - old.x| ∨ moveTolerance < |new.y - old.y|)

instance (old new : Bounds) : Decidable (GeometryTold old new) :=
  inferInstanceAs (Decidable (_ ∧ _))

section
variable {image : Bool} {old mid new : Bounds} {m n k : AffineMatrix}

theorem computeAffineMatrix_cases (h : computeAffineMatrix image old new = some m) :
    0 < old.width ∧ 0 < old.height ∧ m.a = new.width / old.width ∧ m.b = 0 ∧ m.c = 0 ∧
      m.d = new.height / old.height ∧
      m.e = (if image then (new.x - old.x) / old.width
        else new.x - new.width / old.width * old.x) ∧
      m.f = (if image then (new.y - old.y) / old.height
        else new.y - new.height / old.height * old.y) := by
  simp only [computeAffineMatrix, Option.ite_none_left_eq_some, Option.some.injEq] at h
  obtain ⟨extent, -, rfl⟩ := h
  obtain ⟨wide, tall⟩ := not_or.mp extent
  exact ⟨not_le.mp wide, not_le.mp tall, rfl, rfl, rfl, rfl, rfl, rfl⟩

theorem computeAffineMatrix_eq_none_iff :
    computeAffineMatrix image old new = none ↔ ¬GeometryTold old new := by
  simp only [computeAffineMatrix, GeometryTold]
  split
  · rename_i degenerate
    refine iff_of_true rfl fun told => ?_
    obtain thin | flat := degenerate
    · exact absurd told.1 (not_lt.mpr thin)
    · exact absurd told.2.1 (not_lt.mpr flat)
  · rename_i extent
    obtain ⟨wide, tall⟩ := not_or.mp extent
    simp only [not_le] at wide tall
    simp only [wide, tall, true_and, not_or, not_le, not_lt]
    split
    · rename_i small
      exact iff_of_true rfl small
    · rename_i large
      exact iff_of_false (by simp) large

/-- The matrix that is returned takes the old box to the new one. -/
theorem computeAffineMatrix_maps (h : computeAffineMatrix image old new = some m) :
    MapsBox image m old new := by
  obtain ⟨wide, tall, a, b, c, d, e, f⟩ := computeAffineMatrix_cases h
  have wide' : old.width ≠ 0 := ne_of_gt wide
  have tall' : old.height ≠ 0 := ne_of_gt tall
  cases image with
  | true =>
    simp only [MapsBox, AffineMatrix.followedBy, cm, a, b, c, d, e, f, if_true,
      AffineMatrix.mk.injEq]
    refine ⟨?_, ?_, ?_, ?_, ?_, ?_⟩ <;> field_simp <;> ring
  | false =>
    simp only [MapsBox, AffineMatrix.followedBy, cm, a, b, c, d, e, f, if_false,
      Bool.false_eq_true, AffineMatrix.mk.injEq]
    refine ⟨?_, ?_, ?_, ?_, ?_, ?_⟩ <;> field_simp <;> ring

theorem computeAffineMatrix_axisAligned (h : computeAffineMatrix image old new = some m) :
    m.AxisAligned := by
  obtain ⟨-, -, -, b, c, -⟩ := computeAffineMatrix_cases h
  exact ⟨b, c⟩

theorem shape_placed (h : computeAffineMatrix false old new = some m) :
    (cm old).followedBy m = cm new := by
  simpa only [MapsBox, Bool.false_eq_true, if_false] using computeAffineMatrix_maps h

theorem image_placed (h : computeAffineMatrix true old new = some m) :
    m.followedBy (cm old) = cm new := by
  simpa only [MapsBox, if_true] using computeAffineMatrix_maps h

/-- Two edits of a shape, one after the other, place the old box as the last one says. -/
theorem shape_placed_trans (first : computeAffineMatrix false old mid = some m)
    (second : computeAffineMatrix false mid new = some n) :
    (cm old).followedBy (m.followedBy n) = cm new := by
  rw [← AffineMatrix.followedBy_assoc, shape_placed first, shape_placed second]

theorem image_placed_trans (first : computeAffineMatrix true old mid = some m)
    (second : computeAffineMatrix true mid new = some n) :
    n.followedBy (m.followedBy (cm old)) = cm new := by
  rw [image_placed first, image_placed second]

/-- The direct edit of a shape is the product of the two edits. -/
theorem shape_edits_followedBy (first : computeAffineMatrix false old mid = some m)
    (second : computeAffineMatrix false mid new = some n)
    (direct : computeAffineMatrix false old new = some k) : m.followedBy n = k := by
  obtain ⟨wide, tall, -⟩ := computeAffineMatrix_cases direct
  have same : (cm old).followedBy (m.followedBy n) = (cm old).followedBy k := by
    rw [shape_placed_trans first second, shape_placed direct]
  exact AffineMatrix.followedBy_left_cancel (cm_axisAligned old) (ne_of_gt wide)
    (ne_of_gt tall) same

/-- For an image the later edit comes first, since each stands before the placement. -/
theorem image_edits_followedBy (first : computeAffineMatrix true old mid = some m)
    (second : computeAffineMatrix true mid new = some n)
    (direct : computeAffineMatrix true old new = some k) : n.followedBy m = k := by
  obtain ⟨wide, tall, -⟩ := computeAffineMatrix_cases direct
  have same : (n.followedBy m).followedBy (cm old) = k.followedBy (cm old) := by
    rw [AffineMatrix.followedBy_assoc, image_placed_trans first second, image_placed direct]
  exact AffineMatrix.followedBy_right_cancel (cm_axisAligned old) (ne_of_gt wide)
    (ne_of_gt tall) same

end

/-- **A matrix takes the old box to the new one in the frame of its element**, and two edits one
after the other do what the direct edit does. -/
theorem matrices_fit_frames :
    (∀ old new m, computeAffineMatrix false old new = some m →
      m.AxisAligned ∧ (corners old).map m.apply = corners new) ∧
    (∀ old new m, computeAffineMatrix true old new = some m →
      m.AxisAligned ∧ m.followedBy (cm old) = cm new ∧
        ∀ p, (cm old).apply (m.apply p) = (cm new).apply p) ∧
    (∀ old mid new m n, computeAffineMatrix false old mid = some m →
      computeAffineMatrix false mid new = some n →
      (corners old).map (m.followedBy n).apply = corners new ∧
        ∀ k, computeAffineMatrix false old new = some k → m.followedBy n = k) ∧
    (∀ old mid new m n, computeAffineMatrix true old mid = some m →
      computeAffineMatrix true mid new = some n →
      n.followedBy (m.followedBy (cm old)) = cm new ∧
        ∀ k, computeAffineMatrix true old new = some k →
          n.followedBy (m.followedBy (cm old)) = k.followedBy (cm old)) := by
  refine ⟨?_, ?_, ?_, ?_⟩
  · intro old new m h
    exact ⟨computeAffineMatrix_axisAligned h, map_corners (shape_placed h)⟩
  · intro old new m h
    refine ⟨computeAffineMatrix_axisAligned h, image_placed h, fun p => ?_⟩
    rw [← AffineMatrix.apply_followedBy, image_placed h]
  · intro old mid new m n first second
    exact ⟨map_corners (shape_placed_trans first second),
      fun k direct => shape_edits_followedBy first second direct⟩
  · intro old mid new m n first second
    refine ⟨image_placed_trans first second, fun k direct => ?_⟩
    rw [image_placed_trans first second, image_placed direct]

/-- A box away from the origin, moved and made wider, and then made taller. -/
theorem matrices_fit_frames_far :
    (corners ⟨10, 20, 4, 8⟩).map (AffineMatrix.apply ⟨2, 0, 0, 1, -10, -15⟩) =
      corners ⟨10, 5, 8, 8⟩ ∧
    AffineMatrix.followedBy ⟨2, 0, 0, 1, 0, -15 / 8⟩ (cm ⟨10, 20, 4, 8⟩) =
      cm ⟨10, 5, 8, 8⟩ ∧
    AffineMatrix.followedBy ⟨2, 0, 0, 1, -10, -15⟩ ⟨1, 0, 0, 2, 0, -5⟩ =
      ⟨2, 0, 0, 2, -10, -35⟩ ∧
    AffineMatrix.followedBy ⟨1, 0, 0, 2, 0, 0⟩
        (AffineMatrix.followedBy ⟨2, 0, 0, 1, 0, -15 / 8⟩ (cm ⟨10, 20, 4, 8⟩)) =
      AffineMatrix.followedBy ⟨2, 0, 0, 2, 0, -15 / 8⟩ (cm ⟨10, 20, 4, 8⟩) := by
  obtain ⟨shape, image, shapes, images⟩ := matrices_fit_frames
  refine ⟨?_, ?_, ?_, ?_⟩
  · exact (shape ⟨10, 20, 4, 8⟩ ⟨10, 5, 8, 8⟩ _ (by decide +kernel)).2
  · exact (image ⟨10, 20, 4, 8⟩ ⟨10, 5, 8, 8⟩ _ (by decide +kernel)).2.1
  · exact (shapes ⟨10, 20, 4, 8⟩ ⟨10, 5, 8, 8⟩ ⟨10, 5, 8, 16⟩ _ _ (by decide +kernel)
      (by decide +kernel)).2 _ (by decide +kernel)
  · exact (images ⟨10, 20, 4, 8⟩ ⟨10, 5, 8, 8⟩ ⟨10, 5, 8, 16⟩ _ _ (by decide +kernel)
      (by decide +kernel)).2 _ (by decide +kernel)

/-! ## Which updates reach the engine -/

/-- Some edge is farther than the tolerance from where it was. -/
def EdgesMoved (old new : Bounds) : Prop :=
  moveTolerance < |new.x - old.x| ∨ moveTolerance < |new.x + new.width - (old.x + old.width)| ∨
    moveTolerance < |new.y - old.y| ∨ moveTolerance < |new.y + new.height - (old.y + old.height)|

instance (old new : Bounds) : Decidable (EdgesMoved old new) :=
  inferInstanceAs (Decidable (_ ∨ _))

def ElementBody.isImage : ElementBody → Bool
  | .image _ => true
  | .text .. | .shape _ | ElementBody.annotation | .formField .. => false

section
variable {δ ρ : Type} (engine : PdfEngine δ ρ) (page : PdfPage δ)

/-- The engine reports the image or the shape under the index, and the update does not turn it. -/
def ResolvesUnturned (element : ElementRecord ρ) (index : Nat) : ElementBody → Prop
  | .image _ => ∃ original, page.report engine.imageInfo index = some original ∧
      rotationUnchanged original.rotation (element.rotation.getD original.rotation) = true
  | .shape _ => (page.report engine.vectorPath index).isSome = true ∧
      rotationUnchanged 0 (element.rotation.getD 0) = true
  | .text .. | ElementBody.annotation | .formField .. => False

/-- The shape gains or loses its fill or its stroke. -/
def AddsOrRemovesPaint (index : Nat) : ElementBody → Prop
  | .shape style => ∃ original, page.report engine.vectorPath index = some original ∧
      computeShapeStyleChange engine.toLowerCase style original = .inexpressible
  | .text .. | .image _ | ElementBody.annotation | .formField .. => False

/-- The box apart, the update changes nothing that can be expressed in place. -/
def StyleKept (index : Nat) : ElementBody → Prop
  | .image opacity => ∃ original, page.report engine.imageInfo index = some original ∧
      |opacity - original.opacity| ≤ opacityTolerance
  | .shape style => ∃ original, page.report engine.vectorPath index = some original ∧
      computeShapeStyleChange engine.toLowerCase style original = .unchanged ∧
      computeShapeOpacityChange style original = (none, none)
  | .text .. | ElementBody.annotation | .formField .. => False

/-- What an update of a box asks of its route: a moved edge reaches the engine or the fallback, and
only an update that changes nothing is dropped. -/
structure GeometryKept (index : Nat) (body : ElementBody) (old new : Bounds) (route : Route) :
    Prop where
  moved : EdgesMoved old new → route = .fallback ∨
    ∃ edit m, route = .inPlace edit ∧ edit.index = index ∧ edit.matrix = some m ∧
      MapsBox body.isImage m old new
  dropped : route = .dropped → ¬EdgesMoved old new ∧ StyleKept engine page index body

/-- What becomes of the matrix of an update. -/
def Routes (index : Nat) (body : ElementBody) (matrix : Option AffineMatrix) (route : Route) :
    Prop :=
  (AddsOrRemovesPaint engine page index body ∧ route = .fallback) ∨
    ¬AddsOrRemovesPaint engine page index body ∧
      ((∃ edit, route = .inPlace edit ∧ edit.index = index ∧ edit.matrix = matrix) ∨
        route = .dropped ∧ StyleKept engine page index body ∧ matrix = none)

variable {engine page} {op : ElementOp ρ} {originalIndex index : Nat} {old new : Bounds}

theorem geometryRoute_routes {body : ElementBody} (pageNumber : Nat) (matrix : Option AffineMatrix)
    (paint : ¬AddsOrRemovesPaint engine page index body)
    (kept : StyleKept engine page index body) :
    Routes engine page index body matrix
      (geometryRoute pageNumber index originalIndex (some old) (some new) matrix) := by
  refine .inr ⟨paint, ?_⟩
  cases matrix with
  | some m => exact .inl ⟨_, rfl, rfl, rfl⟩
  | none => exact .inr ⟨rfl, kept, rfl⟩

theorem classifyImage_routes {opacity : ℚ} (update : op.action = .update)
    (resolves : ResolvesUnturned engine page op.element index (.image opacity))
    (was : op.oldBounds = some old) (now : op.element.bounds = some new) :
    Routes engine page index (.image opacity)
      (computeAffineMatrix true (toPdfBounds page.info old) (toPdfBounds page.info new))
      (classifyImage engine page originalIndex op opacity index) := by
  obtain ⟨original, found, unturned⟩ := resolves
  have paint : ¬AddsOrRemovesPaint engine page index (.image opacity) := id
  simp only [classifyImage, found, update, was, now, unturned, geometryMatrix, Option.bind_some,
    reduceCtorEq, if_false, Bool.not_true, Bool.false_eq_true]
  split
  · exact .inr ⟨paint, .inl ⟨_, rfl, rfl, rfl⟩⟩
  · exact geometryRoute_routes _ _ paint ⟨original, found, not_lt.mp ‹_›⟩

theorem classifyShape_routes {style : ShapeStyle} (update : op.action = .update)
    (resolves : ResolvesUnturned engine page op.element index (.shape style))
    (was : op.oldBounds = some old) (now : op.element.bounds = some new) :
    Routes engine page index (.shape style)
      (computeAffineMatrix false (toPdfBounds page.info old) (toPdfBounds page.info new))
      (classifyShape engine page originalIndex op style index) := by
  obtain ⟨reported, unturned⟩ := resolves
  obtain ⟨original, found⟩ := Option.isSome_iff_exists.mp reported
  have paint_iff : AddsOrRemovesPaint engine page index (.shape style) ↔
      computeShapeStyleChange engine.toLowerCase style original = .inexpressible := by
    simp only [AddsOrRemovesPaint, found, Option.some.injEq, exists_eq_left']
  simp only [classifyShape, found, update, was, now, unturned, geometryMatrix, Option.bind_some,
    reduceCtorEq, if_false, Bool.not_true, Bool.false_eq_true]
  cases change : computeShapeStyleChange engine.toLowerCase style original with
  | inexpressible => exact .inl ⟨paint_iff.mpr change, rfl⟩
  | override override =>
    have paint : ¬AddsOrRemovesPaint engine page index (.shape style) := by simp [paint_iff, change]
    exact .inr ⟨paint, .inl ⟨_, rfl, rfl, rfl⟩⟩
  | unchanged =>
    have paint : ¬AddsOrRemovesPaint engine page index (.shape style) := by simp [paint_iff, change]
    simp only
    split
    · exact .inr ⟨paint, .inl ⟨_, rfl, rfl, rfl⟩⟩
    · rename_i alphas
      have none_changed : computeShapeOpacityChange style original = (none, none) := by
        simp only [Bool.or_eq_true, not_or, Bool.not_eq_true, Option.isSome_eq_false_iff,
          Option.isNone_iff_eq_none] at alphas
        exact Prod.ext alphas.1 alphas.2
      exact geometryRoute_routes _ _ paint ⟨original, found, change, none_changed⟩

/-- The route of an update of an image or a shape depends on the matrix of its boxes. -/
theorem classify_routes {body : ElementBody} (originalIndex : Nat) (update : op.action = .update)
    (typed : op.element.body = some body) (valid : validRunIndex op.element.index = some index)
    (resolves : ResolvesUnturned engine page op.element index body)
    (was : op.oldBounds = some old) (now : op.element.bounds = some new) :
    Routes engine page index body
      (computeAffineMatrix body.isImage (toPdfBounds page.info old) (toPdfBounds page.info new))
      (classify engine page originalIndex op) := by
  cases body with
  | image opacity =>
    simp only [classify, update, typed, valid]
    exact classifyImage_routes update resolves was now
  | shape style =>
    simp only [classify, update, typed, valid]
    exact classifyShape_routes update resolves was now
  | text | annotation | formField => exact resolves.elim

/-- A route keeps the geometry just when a moved edge has a matrix or the shape is drawn anew. -/
theorem Routes.kept_iff {body : ElementBody} {route : Route}
    (routes : Routes engine page index body (computeAffineMatrix body.isImage old new) route) :
    GeometryKept engine page index body old new route ↔
      (EdgesMoved old new → AddsOrRemovesPaint engine page index body ∨ GeometryTold old new) := by
  obtain ⟨paint, rfl⟩ | ⟨paint, ⟨edit, rfl, here, carried⟩ | ⟨rfl, style, nothing⟩⟩ := routes
  · exact iff_of_true ⟨fun _ => .inl rfl, nofun⟩ fun _ => .inl paint
  · constructor
    · intro kept moved
      obtain redrawn | ⟨edit', m, same, -, matrix, -⟩ := kept.moved moved
      · cases redrawn
      · cases same
        refine .inr (not_not.mp fun untold => ?_)
        rw [matrix, computeAffineMatrix_eq_none_iff.mpr untold] at carried
        cases carried
    · intro told
      refine ⟨fun moved => .inr ?_, nofun⟩
      obtain redrawn | told := told moved
      · exact absurd redrawn paint
      · cases matrix : computeAffineMatrix body.isImage old new with
        | none => exact absurd told (computeAffineMatrix_eq_none_iff.mp matrix)
        | some m =>
          exact ⟨edit, m, rfl, here, carried.trans matrix, computeAffineMatrix_maps matrix⟩
  · have untold := computeAffineMatrix_eq_none_iff.mp nothing
    constructor
    · intro kept moved
      exact absurd moved (kept.dropped rfl).1
    · intro told
      have still : ¬EdgesMoved old new := fun moved => by
        obtain redrawn | told := told moved
        · exact paint redrawn
        · exact untold told
      exact ⟨fun moved => absurd moved still, fun _ => ⟨still, style⟩⟩

end

deriving instance DecidableEq for Route

/-- A page of 2400 by 2400 points with one image. -/
def poster : PdfPage Bounds := ⟨⟨2400, 2400, .r0⟩, [⟨0, 2300, 2000, 100⟩], []⟩

def widened (width : ℚ) : ElementOp Unit where
  action := .update
  element := ⟨"a", some (.image 1), some ⟨0, 0, width, 100⟩, none, some 0, ()⟩
  pageNumber := 1
  oldBounds := some ⟨0, 0, 2000, 100⟩
  toFront := none

theorem poster_resolves (width : ℚ) :
    ResolvesUnturned imagePdf poster (widened width).element 0 (.image 1) :=
  ⟨⟨0, 1⟩, rfl, (by decide +kernel : rotationUnchanged 0 0 = true)⟩

end GigaPdf
