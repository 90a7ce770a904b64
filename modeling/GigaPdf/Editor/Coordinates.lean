import Mathlib.Algebra.Order.Field.Basic
import Mathlib.Data.Rat.Cast.Order
import Mathlib.Tactic.Linarith
import Mathlib.Tactic.NormNum
import GigaPdf.Lib.Rectangles

/-!
# Web and PDF coordinates

The web origin is the top left corner of the page as it is displayed, the PDF origin the bottom
left corner of the page before its `/Rotate`. `utils/coordinates.ts` and `parse/ocr-blocks.ts`
each map a web rectangle to a PDF one; lengths are rational numbers here.
-/

namespace GigaPdf

abbrev Bounds := Rect ℚ

inductive Rotation
  | r0 | r90 | r180 | r270
deriving DecidableEq

/-- A page that is displayed on its side. -/
def Rotation.sideways : Rotation → Bool
  | .r90 | .r270 => true
  | .r0 | .r180 => false

/-- `bounds.y` is the top edge on the web and the bottom edge in the PDF. -/
def webToPdf (x y width height pageHeight : ℚ) (pageWidth : Option ℚ)
    (rotation : Option Rotation) : Bounds :=
  match rotation.getD .r0 with
  | .r90 | .r270 =>
    let effectiveH := pageWidth.getD pageHeight
    ⟨x, effectiveH - y - height, width, height⟩
  | .r180 => ⟨pageHeight - x - width, y, width, height⟩
  | .r0 => ⟨x, pageHeight - y - height, width, height⟩

/-! ## The placement of recognized words -/

structure OcrWordBox where
  left : ℚ
  top : ℚ
  width : ℚ
  height : ℚ

/-- `pageWidth` and `pageHeight` are those of the page before its rotation. -/
structure PdfPlacementContext where
  imageWidth : ℚ
  imageHeight : ℚ
  pageWidth : ℚ
  pageHeight : ℚ
  rotation : Rotation

namespace PdfPlacementContext

variable (ctx : PdfPlacementContext)

def displayedWidth : ℚ := if ctx.rotation.sideways then ctx.pageHeight else ctx.pageWidth

def displayedHeight : ℚ := if ctx.rotation.sideways then ctx.pageWidth else ctx.pageHeight

def scale : ℚ := ctx.displayedWidth / ctx.imageWidth

/-- A point of the image in PDF user space. -/
def toUser (px py : ℚ) : ℚ × ℚ :=
  match ctx.rotation with
  | .r90 => (py * ctx.scale, px * ctx.scale)
  | .r180 => (ctx.pageWidth - px * ctx.scale, py * ctx.scale)
  | .r270 => (ctx.pageWidth - py * ctx.scale, ctx.pageHeight - px * ctx.scale)
  | .r0 => (px * ctx.scale, ctx.pageHeight - py * ctx.scale)

end PdfPlacementContext

/-- The bounding box of the four corners. -/
def ocrWordToPdfBox (word : OcrWordBox) (ctx : PdfPlacementContext) : Bounds :=
  let leftPx := word.left
  let rightPx := word.left + word.width
  let topPx := word.top
  let bottomPx := word.top + word.height
  Rect.hull (ctx.toUser leftPx topPx) (ctx.toUser rightPx topPx) (ctx.toUser rightPx bottomPx)
    (ctx.toUser leftPx bottomPx)

/-! ## The displayed page and the page -/

/-- The page of `pageWidth` by `pageHeight`, displayed at one image pixel a point. -/
def displayedPage (pageWidth pageHeight : ℚ) (rotation : Rotation) : PdfPlacementContext where
  imageWidth := if rotation.sideways then pageHeight else pageWidth
  imageHeight := if rotation.sideways then pageWidth else pageHeight
  pageWidth := pageWidth
  pageHeight := pageHeight
  rotation := rotation

/-- Where a point of the displayed page is on the page. -/
def userPoint (pageWidth pageHeight : ℚ) (rotation : Rotation) (p : ℚ × ℚ) : ℚ × ℚ :=
  match rotation with
  | .r0 => Rect.flipY pageHeight p
  | .r90 => p.swap
  | .r180 => Rect.flipX pageWidth p
  | .r270 => Rect.flipY pageHeight (Rect.flipX pageWidth p.swap)

/-- Where a rectangle of the displayed page is on the page. -/
def userRect (pageWidth pageHeight : ℚ) (rotation : Rotation) (r : Bounds) : Bounds :=
  match rotation with
  | .r0 => r.reflectY pageHeight
  | .r90 => r.swap
  | .r180 => r.reflectX pageWidth
  | .r270 => (r.swap.reflectX pageWidth).reflectY pageHeight

section
variable (pageWidth pageHeight : ℚ) (rotation : Rotation)

theorem userRect_proper {r : Bounds} :
    (userRect pageWidth pageHeight rotation r).Proper ↔ r.Proper := by
  cases rotation <;> simp [userRect]

/-- The page shows just the points of the rectangle there. -/
theorem image_userPoint (r : Bounds) :
    userPoint pageWidth pageHeight rotation '' r.points =
      (userRect pageWidth pageHeight rotation r).points := by
  cases rotation with
  | r0 => exact Rect.image_flipY pageHeight r
  | r90 => exact Rect.image_swap r
  | r180 => exact Rect.image_flipX pageWidth r
  | r270 =>
    rw [userRect, ← Rect.image_flipY, ← Rect.image_flipX, ← Rect.image_swap, Set.image_image,
      Set.image_image]
    rfl

theorem hull_userPoint (a b c d : ℚ × ℚ) :
    Rect.hull (userPoint pageWidth pageHeight rotation a)
      (userPoint pageWidth pageHeight rotation b) (userPoint pageWidth pageHeight rotation c)
      (userPoint pageWidth pageHeight rotation d) =
    userRect pageWidth pageHeight rotation (Rect.hull a b c d) := by
  cases rotation with
  | r0 => exact Rect.hull_flipY pageHeight a b c d
  | r90 => exact Rect.hull_swap a b c d
  | r180 => exact Rect.hull_flipX pageWidth a b c d
  | r270 =>
    simp only [userPoint, userRect]
    rw [Rect.hull_flipY, Rect.hull_flipX, Rect.hull_swap]

end

theorem PdfPlacementContext.toUser_eq (ctx : PdfPlacementContext) (px py : ℚ) :
    ctx.toUser px py =
      userPoint ctx.pageWidth ctx.pageHeight ctx.rotation (px * ctx.scale, py * ctx.scale) := by
  cases rotation : ctx.rotation <;> simp [toUser, rotation, userPoint, Rect.flipX, Rect.flipY]

/-- The box of a word is where its rectangle of the image is on the page. -/
theorem ocrWordToPdfBox_eq {word : OcrWordBox} {ctx : PdfPlacementContext}
    (scaled : 0 ≤ ctx.scale) (wide : 0 ≤ word.width) (high : 0 ≤ word.height) :
    ocrWordToPdfBox word ctx = userRect ctx.pageWidth ctx.pageHeight ctx.rotation
      ⟨word.left * ctx.scale, word.top * ctx.scale, word.width * ctx.scale,
        word.height * ctx.scale⟩ := by
  have proper : Rect.Proper (⟨word.left * ctx.scale, word.top * ctx.scale, word.width * ctx.scale,
      word.height * ctx.scale⟩ : Bounds) := ⟨mul_nonneg wide scaled, mul_nonneg high scaled⟩
  have corners := Rect.hull_corners proper
  simp only [ocrWordToPdfBox, PdfPlacementContext.toUser_eq, add_mul, hull_userPoint, corners]

theorem displayedPage_scale {pageWidth pageHeight : ℚ} (wide : 0 < pageWidth)
    (high : 0 < pageHeight) (rotation : Rotation) :
    (displayedPage pageWidth pageHeight rotation).scale = 1 := by
  have displayed : (displayedPage pageWidth pageHeight rotation).displayedWidth =
      (displayedPage pageWidth pageHeight rotation).imageWidth := rfl
  rw [PdfPlacementContext.scale, displayed]
  apply div_self
  cases rotation with
  | r0 | r180 => exact ne_of_gt wide
  | r90 | r270 => exact ne_of_gt high

/-- At one pixel a point the box of a word is where its rectangle is on the page. -/
theorem ocrWordToPdfBox_displayed {pageWidth pageHeight : ℚ} (wide : 0 < pageWidth)
    (high : 0 < pageHeight) (rotation : Rotation) {r : Bounds} (proper : r.Proper) :
    ocrWordToPdfBox ⟨r.x, r.y, r.width, r.height⟩ (displayedPage pageWidth pageHeight rotation) =
      userRect pageWidth pageHeight rotation r := by
  have scale := displayedPage_scale wide high rotation
  rw [ocrWordToPdfBox_eq (by rw [scale]; exact zero_le_one) proper.1 proper.2]
  simp only [scale, mul_one]
  rfl

/-! ## Agreement -/

/-- The rectangle does not leave a page of this size. -/
def Within (width height : ℚ) (r : Bounds) : Prop :=
  (0 ≤ r.x ∧ r.x + r.width ≤ width) ∧ 0 ≤ r.y ∧ r.y + r.height ≤ height

instance (width height : ℚ) (r : Bounds) : Decidable (Within width height r) := by
  unfold Within
  infer_instance

/-- What lies on the displayed page lies on the page. -/
theorem userRect_within {pageWidth pageHeight : ℚ} {rotation : Rotation} {r : Bounds}
    (inside : Within (displayedPage pageWidth pageHeight rotation).displayedWidth
      (displayedPage pageWidth pageHeight rotation).displayedHeight r) :
    Within pageWidth pageHeight (userRect pageWidth pageHeight rotation r) := by
  have flip : ∀ {low size whole : ℚ}, 0 ≤ low ∧ low + size ≤ whole →
      0 ≤ whole - low - size ∧ whole - low - size + size ≤ whole := by
    intro low size whole ⟨start, stop⟩
    constructor
    · linarith
    · linarith
  obtain ⟨across, down⟩ := inside
  cases rotation with
  | r0 => exact ⟨across, flip down⟩
  | r90 => exact ⟨down, across⟩
  | r180 => exact ⟨flip across, down⟩
  | r270 => exact ⟨flip down, flip across⟩

/-- Both maps send the rectangle to the same place, and it stays on the page. -/
structure MapsAgree (pageWidth pageHeight : ℚ) (rotation : Rotation) (r : Bounds) : Prop where
  same : webToPdf r.x r.y r.width r.height pageHeight (some pageWidth) (some rotation) =
    ocrWordToPdfBox ⟨r.x, r.y, r.width, r.height⟩ (displayedPage pageWidth pageHeight rotation)
  inside : Within (displayedPage pageWidth pageHeight rotation).displayedWidth
      (displayedPage pageWidth pageHeight rotation).displayedHeight r →
    Within pageWidth pageHeight
      (webToPdf r.x r.y r.width r.height pageHeight (some pageWidth) (some rotation))

/-- An upright page, a square page that is upside down, or, on a page displayed on its side, a
square that the quarter turn and the flip take to the same place. -/
def MappedAlike (pageWidth pageHeight : ℚ) (rotation : Rotation) (r : Bounds) : Prop :=
  match rotation with
  | .r0 => True
  | .r180 => pageWidth = pageHeight
  | .r90 => r.width = r.height ∧ r.x = r.y ∧ r.x + r.y + r.height = pageWidth
  | .r270 =>
    r.width = r.height ∧ r.x + r.y + r.height = pageWidth ∧ r.x + r.x + r.width = pageHeight

theorem webToPdf_eq_userRect_iff {pageWidth pageHeight : ℚ} {rotation : Rotation} {r : Bounds} :
    webToPdf r.x r.y r.width r.height pageHeight (some pageWidth) (some rotation) =
      userRect pageWidth pageHeight rotation r ↔
    MappedAlike pageWidth pageHeight rotation r := by
  cases rotation with
  | r0 => exact iff_of_true rfl trivial
  | r90 =>
    simp only [webToPdf, userRect, Rect.swap, MappedAlike, Option.getD_some, Rect.mk.injEq]
    constructor
    · rintro ⟨x, y, width, -⟩
      exact ⟨width, x, by linarith⟩
    · rintro ⟨square, x, y⟩
      exact ⟨x, by linarith, square, square.symm⟩
  | r180 =>
    simp only [webToPdf, userRect, Rect.reflectX, MappedAlike, Option.getD_some, Rect.mk.injEq,
      and_true]
    constructor
    · intro x
      linarith
    · intro square
      linarith
  | r270 =>
    simp only [webToPdf, userRect, Rect.swap, Rect.reflectX, Rect.reflectY, MappedAlike,
      Option.getD_some, Rect.mk.injEq]
    constructor
    · rintro ⟨x, y, width, -⟩
      exact ⟨width, by linarith, by linarith⟩
    · rintro ⟨square, x, y⟩
      exact ⟨by linarith, by linarith, square, square.symm⟩

/-- The two maps agree on upright pages and on square pages upside down, and else only on squares
in one place. -/
theorem web_to_pdf_agrees_iff {pageWidth pageHeight : ℚ} (wide : 0 < pageWidth)
    (high : 0 < pageHeight) (rotation : Rotation) {r : Bounds} (proper : r.Proper) :
    MapsAgree pageWidth pageHeight rotation r ↔ MappedAlike pageWidth pageHeight rotation r := by
  have box := ocrWordToPdfBox_displayed wide high rotation proper
  rw [← webToPdf_eq_userRect_iff]
  constructor
  · intro agree
    exact agree.same.trans box
  · intro same
    refine ⟨same.trans box.symm, fun inside => ?_⟩
    rw [same]
    exact userRect_within inside

theorem web_to_pdf_agrees_upright :
    MapsAgree 612 792 .r0 ⟨10, 20, 40, 30⟩ ∧ MapsAgree 500 500 .r180 ⟨10, 20, 40, 30⟩ :=
  ⟨(web_to_pdf_agrees_iff (by norm_num) (by norm_num) .r0 ⟨by norm_num, by norm_num⟩).mpr trivial,
    (web_to_pdf_agrees_iff (by norm_num) (by norm_num) .r180 ⟨by norm_num, by norm_num⟩).mpr rfl⟩

/-- On a page displayed on its side the box keeps the width and height of the display, and upside
down it is flipped against the height of the page: it then leaves the page. -/
theorem web_to_pdf_disagrees :
    ¬ MapsAgree 612 792 .r90 ⟨10, 20, 40, 30⟩ ∧ ¬ MapsAgree 612 792 .r270 ⟨10, 20, 40, 30⟩ ∧
    ¬ MapsAgree 612 792 .r180 ⟨10, 20, 40, 30⟩ ∧ Within 612 792 ⟨10, 20, 40, 30⟩ ∧
    ¬ Within 612 792 (webToPdf 10 20 40 30 792 (some 612) (some .r180)) := by
  have proper : Rect.Proper (⟨10, 20, 40, 30⟩ : Bounds) := ⟨by norm_num, by norm_num⟩
  have wide : (0 : ℚ) < 612 := by norm_num
  have high : (0 : ℚ) < 792 := by norm_num
  have box := fun rotation => ocrWordToPdfBox_displayed wide high rotation proper
  refine ⟨fun agree => ?_, fun agree => ?_, fun agree => ?_, ?_, ?_⟩
  · have same := agree.same.trans (box .r90)
    norm_num [webToPdf, userRect, Rect.swap] at same
  · have same := agree.same.trans (box .r270)
    norm_num [webToPdf, userRect, Rect.swap, Rect.reflectX, Rect.reflectY] at same
  · have same := agree.same.trans (box .r180)
    norm_num [webToPdf, userRect, Rect.reflectX] at same
  · norm_num [Within]
  · norm_num [Within, webToPdf]

end GigaPdf
