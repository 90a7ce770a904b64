import GigaPdf.Editor.Coordinates

/-!
# Recognized words on a preview

`pdfBoxToImageRect` of `ocr-blocks.ts` maps a box of the page to the rectangle of the rendered
image, and `ocrWordToPdfBox` maps rectangles of the image to boxes of the page. Lengths are rational
numbers.
-/

namespace GigaPdf

/-! ## From the page to the image -/

namespace PdfPlacementContext

variable (ctx : PdfPlacementContext)

def pxPerPt : ℚ := ctx.imageWidth / ctx.displayedWidth

/-- A point of PDF user space in the image. -/
def toImage (ux uy : ℚ) : ℚ × ℚ :=
  match ctx.rotation with
  | .r90 => (uy * ctx.pxPerPt, ux * ctx.pxPerPt)
  | .r180 => ((ctx.pageWidth - ux) * ctx.pxPerPt, uy * ctx.pxPerPt)
  | .r270 => ((ctx.pageHeight - uy) * ctx.pxPerPt, (ctx.pageWidth - ux) * ctx.pxPerPt)
  | .r0 => (ux * ctx.pxPerPt, (ctx.pageHeight - uy) * ctx.pxPerPt)

end PdfPlacementContext

/-- The bounding box of the four corners in the image. -/
def pdfBoxToImageRect (box : Bounds) (ctx : PdfPlacementContext) : OcrWordBox :=
  let rect := Rect.hull (ctx.toImage box.x box.y) (ctx.toImage (box.x + box.width) box.y)
    (ctx.toImage (box.x + box.width) (box.y + box.height))
    (ctx.toImage box.x (box.y + box.height))
  { left := rect.x, top := rect.y, width := rect.width, height := rect.height }

/-- A rectangle of the image, with its top left corner first. -/
def OcrWordBox.rect (word : OcrWordBox) : Bounds := ⟨word.left, word.top, word.width, word.height⟩

/-! ## Turning back -/

/-- Where a point of the page is on the displayed page. -/
def displayedPoint (pageWidth pageHeight : ℚ) (rotation : Rotation) (u : ℚ × ℚ) : ℚ × ℚ :=
  match rotation with
  | .r0 => Rect.flipY pageHeight u
  | .r90 => u.swap
  | .r180 => Rect.flipX pageWidth u
  | .r270 => (Rect.flipX pageWidth (Rect.flipY pageHeight u)).swap

def displayedRect (pageWidth pageHeight : ℚ) (rotation : Rotation) (r : Bounds) : Bounds :=
  match rotation with
  | .r0 => r.reflectY pageHeight
  | .r90 => r.swap
  | .r180 => r.reflectX pageWidth
  | .r270 => ((r.reflectY pageHeight).reflectX pageWidth).swap

section
variable (pageWidth pageHeight : ℚ) (rotation : Rotation)

theorem displayedPoint_userPoint (p : ℚ × ℚ) :
    displayedPoint pageWidth pageHeight rotation (userPoint pageWidth pageHeight rotation p) =
      p := by
  cases rotation <;> simp [displayedPoint, userPoint, Rect.flipX_flipX, Rect.flipY_flipY]

theorem userPoint_displayedPoint (u : ℚ × ℚ) :
    userPoint pageWidth pageHeight rotation (displayedPoint pageWidth pageHeight rotation u) =
      u := by
  cases rotation <;> simp [displayedPoint, userPoint, Rect.flipX_flipX, Rect.flipY_flipY]

theorem displayedRect_userRect (r : Bounds) :
    displayedRect pageWidth pageHeight rotation (userRect pageWidth pageHeight rotation r) =
      r := by
  cases rotation with
  | r0 => exact Rect.reflectY_reflectY pageHeight r
  | r90 => rfl
  | r180 => exact Rect.reflectX_reflectX pageWidth r
  | r270 => rw [displayedRect, userRect, Rect.reflectY_reflectY, Rect.reflectX_reflectX]; rfl

theorem userRect_displayedRect (r : Bounds) :
    userRect pageWidth pageHeight rotation (displayedRect pageWidth pageHeight rotation r) =
      r := by
  cases rotation with
  | r0 => exact Rect.reflectY_reflectY pageHeight r
  | r90 => rfl
  | r180 => exact Rect.reflectX_reflectX pageWidth r
  | r270 =>
    have turned : ((r.reflectY pageHeight).reflectX pageWidth).swap.swap =
        (r.reflectY pageHeight).reflectX pageWidth := rfl
    rw [displayedRect, userRect, turned, Rect.reflectX_reflectX, Rect.reflectY_reflectY]

theorem displayedRect_proper {r : Bounds} :
    (displayedRect pageWidth pageHeight rotation r).Proper ↔ r.Proper := by
  cases rotation <;> simp [displayedRect]

theorem hull_displayedPoint (a b c d : ℚ × ℚ) :
    Rect.hull (displayedPoint pageWidth pageHeight rotation a)
      (displayedPoint pageWidth pageHeight rotation b)
      (displayedPoint pageWidth pageHeight rotation c)
      (displayedPoint pageWidth pageHeight rotation d) =
    displayedRect pageWidth pageHeight rotation (Rect.hull a b c d) := by
  cases rotation with
  | r0 => exact Rect.hull_flipY pageHeight a b c d
  | r90 => exact Rect.hull_swap a b c d
  | r180 => exact Rect.hull_flipX pageWidth a b c d
  | r270 =>
    simp only [displayedPoint, displayedRect]
    rw [Rect.hull_swap, Rect.hull_flipX, Rect.hull_flipY]

end

/-! ## Both maps -/

theorem PdfPlacementContext.toImage_eq (ctx : PdfPlacementContext) (ux uy : ℚ) :
    ctx.toImage ux uy = Rect.scalePoint ctx.pxPerPt
      (displayedPoint ctx.pageWidth ctx.pageHeight ctx.rotation (ux, uy)) := by
  cases rotation : ctx.rotation <;>
    simp [toImage, rotation, displayedPoint, Rect.flipX, Rect.flipY, Rect.scalePoint]

/-- The rectangle of a box is where the box is displayed, in pixels. -/
theorem rect_pdfBoxToImageRect {box : Bounds} {ctx : PdfPlacementContext}
    (scaled : 0 ≤ ctx.pxPerPt) (proper : box.Proper) :
    (pdfBoxToImageRect box ctx).rect =
      (displayedRect ctx.pageWidth ctx.pageHeight ctx.rotation box).scale ctx.pxPerPt := by
  have corners := Rect.hull_corners proper
  simp only [pdfBoxToImageRect, OcrWordBox.rect, PdfPlacementContext.toImage_eq,
    Rect.hull_scalePoint scaled, hull_displayedPoint, corners]

theorem ocrWordToPdfBox_eq_userRect {word : OcrWordBox} {ctx : PdfPlacementContext}
    (scaled : 0 ≤ ctx.scale) (proper : word.rect.Proper) :
    ocrWordToPdfBox word ctx =
      userRect ctx.pageWidth ctx.pageHeight ctx.rotation (word.rect.scale ctx.scale) :=
  ocrWordToPdfBox_eq scaled proper.1 proper.2

/-- The image shows the whole page, at one scale. -/
structure PdfPlacementContext.Rendered (ctx : PdfPlacementContext) : Prop where
  wide : 0 < ctx.pageWidth
  high : 0 < ctx.pageHeight
  image : 0 < ctx.imageWidth
  sameScale : ctx.imageHeight = ctx.displayedHeight * ctx.pxPerPt

section
variable {ctx : PdfPlacementContext}

theorem PdfPlacementContext.Rendered.displayedWidth_pos (rendered : ctx.Rendered) :
    0 < ctx.displayedWidth := by
  rw [PdfPlacementContext.displayedWidth]
  split
  · exact rendered.high
  · exact rendered.wide

theorem PdfPlacementContext.Rendered.scale_pos (rendered : ctx.Rendered) : 0 < ctx.scale :=
  div_pos rendered.displayedWidth_pos rendered.image

theorem PdfPlacementContext.Rendered.pxPerPt_pos (rendered : ctx.Rendered) : 0 < ctx.pxPerPt :=
  div_pos rendered.image rendered.displayedWidth_pos

theorem PdfPlacementContext.Rendered.unit (rendered : ctx.Rendered) :
    ctx.scale * ctx.pxPerPt = 1 := by
  rw [PdfPlacementContext.scale, PdfPlacementContext.pxPerPt,
    div_mul_div_cancel₀ (ne_of_gt rendered.image), div_self (ne_of_gt rendered.displayedWidth_pos)]

theorem PdfPlacementContext.Rendered.unit' (rendered : ctx.Rendered) :
    ctx.pxPerPt * ctx.scale = 1 := by
  rw [mul_comm]
  exact rendered.unit

theorem pdfBoxToImageRect_ocrWordToPdfBox (rendered : ctx.Rendered) {word : OcrWordBox}
    (proper : word.rect.Proper) : pdfBoxToImageRect (ocrWordToPdfBox word ctx) ctx = word := by
  have scaled := Rect.scale_proper rendered.scale_pos.le proper
  have box := ocrWordToPdfBox_eq_userRect rendered.scale_pos.le proper
  have back : (pdfBoxToImageRect (ocrWordToPdfBox word ctx) ctx).rect = word.rect := by
    rw [box, rect_pdfBoxToImageRect rendered.pxPerPt_pos.le ((userRect_proper _ _ _).mpr scaled),
      displayedRect_userRect, Rect.scale_scale rendered.unit]
  exact congrArg (fun r : Bounds => OcrWordBox.mk r.x r.y r.width r.height) back

theorem ocrWordToPdfBox_pdfBoxToImageRect (rendered : ctx.Rendered) {box : Bounds}
    (proper : box.Proper) : ocrWordToPdfBox (pdfBoxToImageRect box ctx) ctx = box := by
  have rect := rect_pdfBoxToImageRect rendered.pxPerPt_pos.le proper
  have proper' : (pdfBoxToImageRect box ctx).rect.Proper := by
    rw [rect]
    exact Rect.scale_proper rendered.pxPerPt_pos.le ((displayedRect_proper _ _ _).mpr proper)
  rw [ocrWordToPdfBox_eq_userRect rendered.scale_pos.le proper', rect,
    Rect.scale_scale rendered.unit', userRect_displayedRect]

/-- The sizes are not negative, whatever the rectangle. -/
theorem sizes_nonneg (word : OcrWordBox) (box : Bounds) (ctx : PdfPlacementContext) :
    (ocrWordToPdfBox word ctx).Proper ∧ (pdfBoxToImageRect box ctx).rect.Proper :=
  ⟨Rect.hull_proper _ _ _ _, Rect.hull_proper _ _ _ _⟩

/-! ## Inclusion -/

/-- The box has just the points of the page that the rectangle shows. -/
theorem image_rect (rendered : ctx.Rendered) {word : OcrWordBox} (proper : word.rect.Proper) :
    (fun p => userPoint ctx.pageWidth ctx.pageHeight ctx.rotation (Rect.scalePoint ctx.scale p)) ''
      word.rect.points = (ocrWordToPdfBox word ctx).points := by
  rw [ocrWordToPdfBox_eq_userRect rendered.scale_pos.le proper, ← image_userPoint,
    ← Rect.image_scalePoint rendered.scale_pos, Set.image_image]

theorem ocrWordToPdfBox_subset_iff (rendered : ctx.Rendered) {word word' : OcrWordBox}
    (proper : word.rect.Proper) (proper' : word'.rect.Proper) :
    (ocrWordToPdfBox word ctx).points ⊆ (ocrWordToPdfBox word' ctx).points ↔
      word.rect.points ⊆ word'.rect.points := by
  rw [← image_rect rendered proper, ← image_rect rendered proper']
  apply Set.image_subset_image_iff
  apply Function.LeftInverse.injective
    (g := fun u => Rect.scalePoint ctx.pxPerPt
      (displayedPoint ctx.pageWidth ctx.pageHeight ctx.rotation u))
  intro p
  simp only [displayedPoint_userPoint, Rect.scalePoint_scalePoint rendered.unit]

theorem pdfBoxToImageRect_subset_iff (rendered : ctx.Rendered) {box box' : Bounds}
    (proper : box.Proper) (proper' : box'.Proper) :
    (pdfBoxToImageRect box ctx).rect.points ⊆ (pdfBoxToImageRect box' ctx).rect.points ↔
      box.points ⊆ box'.points := by
  have sizes := fun box => (sizes_nonneg ⟨0, 0, 0, 0⟩ box ctx).2
  rw [← ocrWordToPdfBox_subset_iff rendered (sizes box) (sizes box'),
    ocrWordToPdfBox_pdfBoxToImageRect rendered proper,
    ocrWordToPdfBox_pdfBoxToImageRect rendered proper']

/-- The whole image. -/
def PdfPlacementContext.image (ctx : PdfPlacementContext) : OcrWordBox :=
  ⟨0, 0, ctx.imageWidth, ctx.imageHeight⟩

def PdfPlacementContext.mediaBox (ctx : PdfPlacementContext) : Bounds :=
  ⟨0, 0, ctx.pageWidth, ctx.pageHeight⟩

theorem PdfPlacementContext.Rendered.image_proper (rendered : ctx.Rendered) :
    ctx.image.rect.Proper := by
  have high : 0 ≤ ctx.displayedHeight := by
    rw [PdfPlacementContext.displayedHeight]
    split
    · exact rendered.wide.le
    · exact rendered.high.le
  refine ⟨rendered.image.le, ?_⟩
  simp only [PdfPlacementContext.image, OcrWordBox.rect, rendered.sameScale]
  exact mul_nonneg high rendered.pxPerPt_pos.le

/-- The whole image is the whole page. -/
theorem ocrWordToPdfBox_image (rendered : ctx.Rendered) :
    ocrWordToPdfBox ctx.image ctx = ctx.mediaBox := by
  have across : ctx.imageWidth * ctx.scale = ctx.displayedWidth := by
    rw [PdfPlacementContext.scale, mul_div_cancel₀ _ (ne_of_gt rendered.image)]
  have down : ctx.imageHeight * ctx.scale = ctx.displayedHeight := by
    rw [rendered.sameScale, mul_assoc, rendered.unit', mul_one]
  rw [ocrWordToPdfBox_eq_userRect rendered.scale_pos.le rendered.image_proper]
  cases rotation : ctx.rotation <;>
    simp [PdfPlacementContext.image, OcrWordBox.rect, Rect.scale, across, down, userRect,
      PdfPlacementContext.mediaBox, Rect.swap, Rect.reflectX, Rect.reflectY,
      PdfPlacementContext.displayedWidth, PdfPlacementContext.displayedHeight, rotation,
      Rotation.sideways]

/-- The two maps are inverse, their sizes are not negative, what is inside the image is inside the
page, and inclusion is kept both ways. -/
theorem ocrBoxes_inverse (rendered : ctx.Rendered) :
    (∀ word : OcrWordBox, word.rect.Proper →
      pdfBoxToImageRect (ocrWordToPdfBox word ctx) ctx = word) ∧
    (∀ box : Bounds, box.Proper → ocrWordToPdfBox (pdfBoxToImageRect box ctx) ctx = box) ∧
    (∀ (word : OcrWordBox) (box : Bounds), (ocrWordToPdfBox word ctx).Proper ∧
      (pdfBoxToImageRect box ctx).rect.Proper) ∧
    (∀ word : OcrWordBox, word.rect.Proper → word.rect.points ⊆ ctx.image.rect.points →
      (ocrWordToPdfBox word ctx).points ⊆ ctx.mediaBox.points) ∧
    (∀ word word' : OcrWordBox, word.rect.Proper → word'.rect.Proper →
      ((ocrWordToPdfBox word ctx).points ⊆ (ocrWordToPdfBox word' ctx).points ↔
        word.rect.points ⊆ word'.rect.points)) ∧
    ∀ box box' : Bounds, box.Proper → box'.Proper →
      ((pdfBoxToImageRect box ctx).rect.points ⊆ (pdfBoxToImageRect box' ctx).rect.points ↔
        box.points ⊆ box'.points) := by
  refine ⟨fun _ => pdfBoxToImageRect_ocrWordToPdfBox rendered,
    fun _ => ocrWordToPdfBox_pdfBoxToImageRect rendered,
    fun word box => sizes_nonneg word box ctx, ?_,
    fun _ _ => ocrWordToPdfBox_subset_iff rendered,
    fun _ _ => pdfBoxToImageRect_subset_iff rendered⟩
  intro word proper inside
  rw [← ocrWordToPdfBox_image rendered]
  exact (ocrWordToPdfBox_subset_iff rendered proper rendered.image_proper).mpr inside

/-- A page of 200 by 100 points on its side, rendered at two pixels a point. -/
theorem ocrBoxes_inverse_sideways :
    pdfBoxToImageRect (ocrWordToPdfBox ⟨10, 20, 30, 40⟩ ⟨200, 400, 200, 100, .r90⟩)
      ⟨200, 400, 200, 100, .r90⟩ = ⟨10, 20, 30, 40⟩ := by
  apply (@ocrBoxes_inverse ⟨200, 400, 200, 100, .r90⟩ _).1
  · constructor <;> norm_num [OcrWordBox.rect]
  · constructor <;> norm_num [PdfPlacementContext.displayedHeight, PdfPlacementContext.pxPerPt,
      PdfPlacementContext.displayedWidth, Rotation.sideways]

end

end GigaPdf
