import GigaPdf.Editor.Operations

/-!
# The extraction of text

`text-extractor.ts` makes an editor element of every run that the engine reports. It turns the box
of the run over at the height of the page, and `applyOperations` turns it back by the rotation.
-/

namespace GigaPdf

/-- A run as `textElements` reports it. Its box and the boxes of its fragments are in user space. -/
structure TextElementInfo extends TextRun where
  index : Int
  text : String
  box : Bounds
  rotation : ℚ
  fontId : String
  segments : List (String × Bounds)

inductive TextDirection
  | ltr | rtl
deriving DecidableEq

/-- What only the renderer reads. -/
structure TextRest where
  direction : TextDirection
  fontId : Option String
  segments : Option (List (String × Bounds))

/-- The display measures from the top. The height is that of the font. -/
def displayBounds (pageHeight fontSize : ℚ) (box : Bounds) : Bounds :=
  ⟨box.x, pageHeight - box.y - box.height, box.width, fontSize⟩

/-- The units of `length`. -/
def utf16Length (text : String) : Nat :=
  (text.toList.map fun c => if c.toNat < 0x10000 then 1 else 2).sum

def textDirection (text : String) : TextDirection :=
  let rtl := text.toList.filter fun c => 0x0590 ≤ c.toNat && c.toNat ≤ 0x08ff
  if (utf16Length text : ℚ) * (2 / 5) < rtl.length then .rtl else .ltr

/-- The empty string counts for nothing. -/
def nonEmpty (text : String) : Option String := if text = "" then none else some text

def runToTextElement (deriveStableId : String → String) (run : TextElementInfo) (pageHeight : ℚ)
    (pageNumber : Nat) : ElementRecord TextRest where
  elementId := deriveStableId s!"{pageNumber}:text:{run.index}"
  body := some (.text run.text
    { fontFamily := run.fontFamily
      originalFont := (run.baseFont.bind nonEmpty).or (nonEmpty run.fontFamily)
      fontSize := run.fontSize
      fontWeight := if run.bold then .bold else .normal
      fontStyle := if run.italic then .italic else .normal
      color := rgbToHex run.color })
  bounds := some (displayBounds pageHeight run.fontSize run.box)
  rotation := some (if run.rotation = 0 then 0 else (-run.rotation + 1 / 2).floor)
  index := some run.index
  rest :=
    { direction := textDirection run.text
      fontId := nonEmpty run.fontId
      segments :=
        if run.segments = [] then none
        else some (run.segments.map fun s => (s.1, displayBounds pageHeight run.fontSize s.2)) }

/-- What `trim` takes away. -/
def isTrimmed (c : Char) : Bool :=
  let n := c.toNat
  (0x09 ≤ n && n ≤ 0x0D) || n = 0x20 || n = 0xA0 || n = 0x1680 || (0x2000 ≤ n && n ≤ 0x200A) ||
    n = 0x2028 || n = 0x2029 || n = 0x202F || n = 0x205F || n = 0x3000 || n = 0xFEFF

/-- A run that is not blank, of some size. -/
def TextElementInfo.visible (run : TextElementInfo) : Bool :=
  !run.text.toList.all isTrimmed && 1 / 10 ≤ run.fontSize

/-- A page without elements has no entry. -/
def extractTextElementsByPage (deriveStableId : String → String)
    (doc : List (PageInfo × List TextElementInfo)) : List (Nat × List (ElementRecord TextRest)) :=
  doc.zipIdx.filterMap fun page =>
    let pageNumber := page.2 + 1
    let elements := (page.1.2.filter TextElementInfo.visible).map fun run =>
      runToTextElement deriveStableId run page.1.1.height pageNumber
    if elements.isEmpty then none else some (pageNumber, elements)

/-- Every element is made of a run of its page, with the height of this page. -/
theorem extractTextElementsByPage_spec {deriveStableId : String → String}
    {doc : List (PageInfo × List TextElementInfo)} {pageNumber : Nat}
    {elements : List (ElementRecord TextRest)} {element : ElementRecord TextRest}
    (page : (pageNumber, elements) ∈ extractTextElementsByPage deriveStableId doc)
    (mem : element ∈ elements) :
    ∃ info runs, (info, runs) ∈ doc ∧ ∃ run ∈ runs,
      element = runToTextElement deriveStableId run info.height pageNumber := by
  rw [extractTextElementsByPage, List.mem_filterMap] at page
  obtain ⟨⟨⟨info, runs⟩, k⟩, here, found⟩ := page
  obtain ⟨-, found⟩ := Option.ite_none_left_eq_some.mp found
  cases found
  obtain ⟨run, visible, rfl⟩ := List.mem_map.mp mem
  exact ⟨info, runs, List.fst_mem_of_mem_zipIdx here, run, List.mem_of_mem_filter visible, rfl⟩

/-! ## Where the edits of an element go -/

/-- How the PDF box of an element moves. -/
def moveVector (info : PageInfo) (old new : Bounds) : ℚ × ℚ :=
  ((toPdfBounds info new).x - (toPdfBounds info old).x,
    (toPdfBounds info new).y - (toPdfBounds info old).y)

/-- A replacement in place moves the run by this vector, if it is long enough. -/
theorem classifyText_move {δ ρ : Type} {engine : PdfEngine δ ρ} {page : PdfPage δ}
    {originalIndex index : Nat} {op : ElementOp ρ} {content : String} {style : TextStyle}
    {edit : InPlaceOp} {old new : Bounds} (update : op.action = .update)
    (oldBounds : op.oldBounds = some old) (bounds : op.element.bounds = some new)
    (h : classifyText engine page originalIndex op content style index = .inPlace edit) :
    edit.move = (some (moveVector page.info old new)).filter
      fun d => moveTolerance < |d.1| ∨ moveTolerance < |d.2| := by
  rw [classifyText, update, oldBounds, bounds] at h
  split at h
  · cases h
  · simp only [reduceCtorEq, if_false] at h
    split at h
    · cases h
    · cases h
      rfl

def movedBy (b : Bounds) (dx dy : ℚ) : Bounds := ⟨b.x + dx, b.y + dy, b.width, b.height⟩

/-- An operation whose boxes are that of the element, so that it is redacted where it is. -/
structure Untouched {ρ : Type} (element : ElementRecord ρ) (op : ElementOp ρ) : Prop where
  action : op.action = .update ∨ op.action = .delete
  bounds : op.element.bounds = element.bounds
  oldBounds : op.oldBounds = element.bounds

/-- The extracted box goes back to the box of the run, the redaction of an untouched element is
that of its glyphs, and a move is a move of the run. -/
structure PlacedAlike (info : PageInfo) (run : TextElementInfo)
    (element : ElementRecord TextRest) : Prop where
  box : element.bounds.map (toPdfBounds info) = some run.box
  glyphs : ∀ op, Untouched element op → (redactionBounds op).map (toPdfBounds info) = some run.box
  move : ∀ bounds dx dy, element.bounds = some bounds →
    moveVector info bounds (movedBy bounds dx dy) = (dx, -dy)

theorem redactionBounds_untouched {ρ : Type} {element : ElementRecord ρ} {op : ElementOp ρ}
    (untouched : Untouched element op) : redactionBounds op = element.bounds := by
  rw [redactionBounds]
  obtain update | delete := untouched.action
  · rw [update]
    exact untouched.oldBounds
  · rw [delete]
    simp only
    rw [untouched.bounds, untouched.oldBounds, Option.or_self]

/-- Upside down, a move goes the other way. -/
theorem moveVector_movedBy (info : PageInfo) (b : Bounds) (dx dy : ℚ) :
    moveVector info b (movedBy b dx dy) =
      if info.rotation = .r180 then (-dx, dy) else (dx, -dy) := by
  cases rotation : info.rotation <;>
    simp [moveVector, toPdfBounds, webToPdf, movedBy, rotation]

/-- On a page on its side the box is turned back at the width of the page, and upside down it is
turned over in the other direction. -/
theorem toPdfBounds_displayBounds_iff (info : PageInfo) {fontSize : ℚ} {box : Bounds}
    (height : box.height = fontSize) :
    toPdfBounds info (displayBounds info.height fontSize box) = box ↔
      match info.rotation with
      | .r0 => True
      | .r90 | .r270 => info.width = info.height
      | .r180 => 2 * box.x + box.width = info.height ∧ 2 * box.y + box.height = info.height := by
  obtain ⟨x, y, width, _⟩ := box
  subst height
  cases rotation : info.rotation with
  | r0 =>
    simp only [toPdfBounds, webToPdf, displayBounds, rotation, Option.getD_some, Rect.mk.injEq,
      true_and, and_true, iff_true]
    ring
  | r90 | r270 =>
    simp only [toPdfBounds, webToPdf, displayBounds, rotation, Option.getD_some, Rect.mk.injEq,
      true_and, and_true]
    constructor
    · intro same
      linarith
    · intro square
      linarith
  | r180 =>
    simp only [toPdfBounds, webToPdf, displayBounds, rotation, Option.getD_some, Rect.mk.injEq,
      and_true]
    constructor
    · rintro ⟨across, down⟩
      constructor <;> linarith
    · rintro ⟨across, down⟩
      constructor <;> linarith

def sampleRun : TextElementInfo where
  fontFamily := "Times New Roman"
  baseFont := some "ABCDEF+TimesNewRomanPSMT"
  bold := false
  italic := false
  fontSize := 12
  color := ⟨0, 0, 0⟩
  index := 4
  text := "Total"
  box := ⟨72, 700, 30, 12⟩
  rotation := 0
  fontId := ""
  segments := []

end GigaPdf
