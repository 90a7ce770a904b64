import GigaPdf.Editor.InPlace
import Mathlib.Data.Rat.Floor

/-!
# Elements and what the engine reports of them

The records of the editor, the reports of the engine, and the comparisons by which
`applyOperations` tells what has changed. Numbers are read exactly.
-/

namespace GigaPdf

/-! ## Colours -/

def clamp255 (n : ℚ) : Nat := (min 255 (max 0 n) + 1 / 2).floor.toNat

/-- Two digits of `toString(16)`. -/
def hexByte (n : Nat) : List Char :=
  if n < 16 then '0' :: Nat.toDigits 16 n else Nat.toDigits 16 n

def rgbToHex (c : Rgb) : String :=
  String.ofList ('#' :: (hexByte (clamp255 (c.red * 255)) ++ hexByte (clamp255 (c.green * 255)) ++
    hexByte (clamp255 (c.blue * 255))))

def hexDigit? (c : Char) : Option Nat :=
  if '0' ≤ c ∧ c ≤ '9' then some (c.toNat - '0'.toNat)
  else if 'a' ≤ c ∧ c ≤ 'f' then some (c.toNat - 'a'.toNat + 10)
  else if 'A' ≤ c ∧ c ≤ 'F' then some (c.toNat - 'A'.toNat + 10)
  else none

/-- `parseInt(text, 16)`, clamped, for a text of two characters at most: a sign or a blank counts
for nothing or makes the number negative, and what is no number is 0. -/
def parseByte : List Char → Nat
  | [] => 0
  | c :: rest =>
    match hexDigit? c with
    | some high =>
      match rest.head?.bind hexDigit? with
      | some low => high * 16 + low
      | none => high
    | none => if c = '+' ∨ c.isWhitespace then (rest.head?.bind hexDigit?).getD 0 else 0

/-- Three digits are doubled; a `#` is dropped. -/
def hexToRgb01 (hex : String) : Rgb :=
  let chars := hex.toList.erase '#'
  let full := if chars.length = 3 then chars.flatMap fun c => [c, c] else chars
  ⟨parseByte (full.take 2) / 255, parseByte ((full.drop 2).take 2) / 255,
    parseByte ((full.drop 4).take 2) / 255⟩

/-! ## Records of the editor -/

inductive FontWeight
  | normal | bold
deriving DecidableEq

inductive FontStyle
  | normal | italic
deriving DecidableEq

structure TextStyle where
  fontFamily : String
  originalFont : Option String
  fontSize : ℚ
  fontWeight : FontWeight
  fontStyle : FontStyle
  color : String
deriving DecidableEq

structure ShapeStyle where
  fillColor : Option String
  fillOpacity : ℚ
  strokeColor : Option String
  strokeWidth : ℚ
  strokeOpacity : ℚ
  strokeDashArray : List ℚ
deriving DecidableEq

inductive FieldValue
  | text (value : String)
  | flag (value : Bool)
  | choices (values : List String)
deriving DecidableEq

/-- What the element is; the record of a deletion does not say. -/
inductive ElementBody
  | text (content : String) (style : TextStyle)
  | image (opacity : ℚ)
  | shape (style : ShapeStyle)
  | annotation
  | formField (fieldName : String) (value : FieldValue)
deriving DecidableEq

/-- An element, or the record of a deletion. `rest` is what only the renderers read. -/
structure ElementRecord (ρ : Type) where
  elementId : String
  body : Option ElementBody
  bounds : Option Bounds
  rotation : Option ℚ
  index : Option Int
  rest : ρ
deriving DecidableEq

/-! ## Reports of the engine -/

structure TextRun where
  fontFamily : String
  baseFont : Option String
  bold : Bool
  italic : Bool
  fontSize : ℚ
  color : Rgb

structure ImageInfo where
  rotation : ℚ
  opacity : ℚ

structure VectorPath where
  fill : Option Rgb
  stroke : Option Rgb
  strokeWidth : ℚ
  dash : List ℚ
  fillAlpha : ℚ
  strokeAlpha : ℚ

structure PageInfo where
  width : ℚ
  height : ℚ
  rotation : Rotation
deriving DecidableEq

/-! ## What has changed -/

def maxRunIndex : Int := 2 ^ 31

/-- The index of an element that can be edited in place; the engine marks others with `-1`. -/
def validRunIndex (index : Option Int) : Option Nat :=
  index.bind fun i => if 0 ≤ i ∧ i < maxRunIndex then some i.toNat else none

def moveTolerance : ℚ := 1 / 2

def formGeometryUnchanged (a b : Bounds) : Bool :=
  |a.x - b.x| ≤ 1 / 2 && |a.y - b.y| ≤ 1 / 2 && |a.width - b.width| ≤ 1 / 2 &&
    |a.height - b.height| ≤ 1 / 2

/-- The angles are compared on the circle. -/
def rotationUnchanged (a b : ℚ) : Bool :=
  let norm (deg : ℚ) : ℚ := deg - 360 * (deg / 360).floor
  let d := |norm a - norm b|
  min d (360 - d) ≤ 1 / 2

section
variable (toLowerCase : String → String)

/-- Only the text or the position has changed, which `replaceText` and `moveElement` can express. -/
def styleMatchesRun (style : TextStyle) (run : TextRun) : Bool :=
  let runFamily := toLowerCase run.fontFamily
  let runBaseFont := toLowerCase (run.baseFont.getD "")
  let elementFamily := toLowerCase (style.originalFont.getD style.fontFamily)
  |style.fontSize - run.fontSize| ≤ 1 / 2 &&
    style.fontWeight = (if run.bold then .bold else .normal) &&
    style.fontStyle = (if run.italic then .italic else .normal) &&
    toLowerCase style.color = toLowerCase (rgbToHex run.color) &&
    (elementFamily = runFamily || (runBaseFont ≠ "" && elementFamily = runBaseFont))

def dashArraysEqual (a b : List ℚ) : Bool :=
  a.length = b.length && (a.zip b).all fun d => |d.1 - d.2| ≤ 1 / 1000000

/-- A change of style that `setPathStyle` can express, or not. -/
inductive StyleChange
  | unchanged
  | inexpressible
  | override (style : PathStyleOverride)

def PathStyleOverride.empty : PathStyleOverride := ⟨none, none, none, none, none, none⟩

/-- The empty string is no colour. -/
def paint (color : Option String) : Option String :=
  (color.filter fun c => c ≠ "").map toLowerCase

/-- A paint cannot be added or removed, only changed. -/
def computeShapeStyleChange (style : ShapeStyle) (original : VectorPath) : StyleChange :=
  let oldFill := original.fill.map fun c => toLowerCase (rgbToHex c)
  let oldStroke := original.stroke.map fun c => toLowerCase (rgbToHex c)
  let newFill := paint toLowerCase style.fillColor
  let newStroke := paint toLowerCase style.strokeColor
  let transition (old new : Option String) : Bool := old.isSome ≠ new.isSome
  if transition oldFill newFill || transition oldStroke newStroke then .inexpressible
  else
    let out : PathStyleOverride :=
      { PathStyleOverride.empty with
        fill := if newFill = oldFill then none else newFill.map hexToRgb01
        stroke := if newStroke = oldStroke then none else newStroke.map hexToRgb01
        strokeWidth :=
          if oldStroke.isSome ∧ 1 / 100 < |style.strokeWidth - original.strokeWidth| then
            some style.strokeWidth
          else none
        dash :=
          if dashArraysEqual style.strokeDashArray original.dash then none
          else some style.strokeDashArray }
    if out = PathStyleOverride.empty then .unchanged else .override out

end

def clamp01 (n : ℚ) : ℚ := max 0 (min 1 n)

def opacityTolerance : ℚ := 1 / 1000

/-- The alphas of the paints that the path has, where they have changed. -/
def computeShapeOpacityChange (style : ShapeStyle) (original : VectorPath) :
    Option ℚ × Option ℚ :=
  (if original.fill.isSome ∧ opacityTolerance < |style.fillOpacity - original.fillAlpha| then
      some (clamp01 style.fillOpacity) else none,
    if original.stroke.isSome ∧ opacityTolerance < |style.strokeOpacity - original.strokeAlpha| then
      some (clamp01 style.strokeOpacity) else none)

/-- The matrix that takes the old box to the new one, if it does something and the old box is not
degenerate. An image is placed by a matrix of its own, so that its translation is in units of its
size. -/
def computeAffineMatrix (image : Bool) (oldPdf newPdf : Bounds) : Option AffineMatrix :=
  if oldPdf.width ≤ 0 ∨ oldPdf.height ≤ 0 then none
  else
    let sx := newPdf.width / oldPdf.width
    let sy := newPdf.height / oldPdf.height
    let e := if image then (newPdf.x - oldPdf.x) / oldPdf.width else newPdf.x - sx * oldPdf.x
    let f := if image then (newPdf.y - oldPdf.y) / oldPdf.height else newPdf.y - sy * oldPdf.y
    if |sx - 1| < 1 / 1000 ∧ |sy - 1| < 1 / 1000 ∧ |newPdf.x - oldPdf.x| ≤ moveTolerance ∧
        |newPdf.y - oldPdf.y| ≤ moveTolerance then none
    else some ⟨sx, 0, 0, sy, e, f⟩

/-- The box of the display in user space. -/
def toPdfBounds (info : PageInfo) (b : Bounds) : Bounds :=
  webToPdf b.x b.y b.width b.height info.height (some info.width) (some info.rotation)

end GigaPdf
