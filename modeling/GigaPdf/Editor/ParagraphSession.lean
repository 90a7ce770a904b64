import GigaPdf.Editor.Elements
import GigaPdf.Lib.Text
import GigaPdf.Lib.Windows
import Mathlib.Data.List.Defs

/-!
# Paragraph sessions

A paragraph edit session shows the runs of a paragraph as one text box. `commitParagraphSession`
maps the box back onto the runs, and `refreshParagraphSessionAfterCommit` prepares the session for
a further edit. A text is the list of its code units.
-/

namespace GigaPdf.ParagraphSession

/-! ## Values of the text box -/

/-- `n || d` -/
def orNumber (n : Option ℚ) (d : ℚ) : ℚ :=
  match n with
  | some n => if n = 0 then d else n
  | none => d

/-- `s || d` -/
def orText (s : Option String) (d : String) : String :=
  match s with
  | some s => if s = "" then d else s
  | none => d

abbrev CodeUnit := UInt16

/-- The code units of a text, with a pair for a character beyond the first plane. -/
def codeUnits (s : String) : List CodeUnit :=
  s.toList.flatMap fun c =>
    let n := c.toNat
    if n < 0x10000 then [n.toUInt16]
    else [(0xD800 + (n - 0x10000) / 0x400).toUInt16, (0xDC00 + (n - 0x10000) % 0x400).toUInt16]

def newline : CodeUnit := 0x0A

def space : CodeUnit := 0x20

/-- `\s` in a regular expression. -/
def isWhitespace (n : Nat) : Bool :=
  (0x09 ≤ n && n ≤ 0x0D) || n = 0x20 || n = 0xA0 || n = 0x1680 || (0x2000 ≤ n && n ≤ 0x200A) ||
    n = 0x2028 || n = 0x2029 || n = 0x202F || n = 0x205F || n = 0x3000 || n = 0xFEFF

/-- `Number.parseInt(s, 10)` -/
def parseInt (s : List Char) : Option Int :=
  let number (s : List Char) : Option Nat :=
    match s.takeWhile Char.isDigit with
    | [] => none
    | digits => some (digits.foldl (fun n c => 10 * n + (c.toNat - '0'.toNat)) 0)
  match s.dropWhile fun c => isWhitespace c.toNat with
  | '-' :: s => (number s).map fun n => -(n : Int)
  | '+' :: s => (number s).map Int.ofNat
  | s => (number s).map Int.ofNat

inductive Weight
  | number (n : ℚ)
  | text (s : String)
deriving DecidableEq

def isBoldFontWeight : Option Weight → Bool
  | some (.number n) => 600 ≤ n
  | some (.text s) =>
    if s = "bold" ∨ s = "bolder" then true
    else match parseInt s.toList with
      | some n => 600 ≤ n
      | none => false
  | none => false

def fontWeightOf (weight : Option Weight) : FontWeight :=
  if isBoldFontWeight weight then .bold else .normal

def fontStyleOf (style : Option String) : FontStyle :=
  if style = some "italic" then .italic else .normal

structure RunStyle extends TextStyle where
  opacity : ℚ
  textAlign : String
  lineHeight : ℚ
  letterSpacing : ℚ
  underline : Bool
  strikethrough : Bool
  fontId : Option String
deriving DecidableEq

structure SessionLineRunSnapshot where
  elementId : String
  index : Option Int
  bounds : Bounds
  content : List CodeUnit
  style : Option RunStyle
deriving DecidableEq

/-- The style of one character in the `styles` map of the box. -/
structure CharOverride where
  fontSize : Option ℚ
  fill : Option String
  fontWeight : Option Weight
  fontStyle : Option String
  underline : Option Bool
  linethrough : Option Bool
  charSpacing : Option ℚ
deriving DecidableEq

/-- The `data` of a session box. -/
structure SessionData where
  lineRuns : Option (List (List SessionLineRunSnapshot))
  sessionOrigin : Option (ℚ × ℚ)
  sessionLineTexts : Option (List (List CodeUnit))
  sessionOriginalText : Option (List CodeUnit)
  originalFont : Option String
  fontId : Option String

structure SessionTextbox where
  text : Option (List CodeUnit)
  textLines : Option (List (List CodeUnit))
  styles : Option (Nat → Option (Nat → Option CharOverride))
  styleMap : Nat → Option (Nat × Nat)
  left : Option ℚ
  top : Option ℚ
  width : Option ℚ
  scaleX : Option ℚ
  angle : Option ℚ
  skewX : Option ℚ
  skewY : Option ℚ
  opacity : Option ℚ
  visible : Option Bool
  fill : Option String
  fontSize : Option ℚ
  fontFamily : Option String
  fontWeight : Option Weight
  fontStyle : Option String
  textAlign : Option String
  lineHeight : Option ℚ
  charSpacing : Option ℚ
  underline : Option Bool
  linethrough : Option Bool
  data : SessionData

structure Transform where
  rotation : ℚ
  skewX : ℚ
  skewY : ℚ
deriving DecidableEq

structure TextElement where
  elementId : String
  bounds : Bounds
  transform : Transform
  visible : Bool
  content : List CodeUnit
  style : RunStyle
  index : Option Int
deriving DecidableEq

inductive ParagraphSessionCommit
  | unchanged
  | update (elements : List TextElement)
  | reflow (removedElementIds : List String) (addedElements : List TextElement)
deriving DecidableEq

section
variable (tb : SessionTextbox)

def transformOf : Transform := ⟨tb.angle.getD 0, tb.skewX.getD 0, tb.skewY.getD 0⟩

/-- `tb.data?.fontId ? { fontId } : {}` -/
def truthy (s : Option String) : Option String := s.filter fun s => s ≠ ""

/-- The style of the box with a font size. -/
def boxStyle (fontFamily : String) (fontSize : ℚ) : RunStyle where
  fontFamily := fontFamily
  originalFont := tb.data.originalFont
  fontSize := fontSize
  fontWeight := fontWeightOf tb.fontWeight
  fontStyle := fontStyleOf tb.fontStyle
  color := orText tb.fill "#000000"
  opacity := tb.opacity.getD 1
  textAlign := orText tb.textAlign "left"
  lineHeight := orNumber tb.lineHeight (6 / 5)
  letterSpacing := tb.charSpacing.getD 0
  underline := tb.underline.getD false
  strikethrough := tb.linethrough.getD false
  fontId := truthy tb.data.fontId

def familyOf : String := orText (tb.data.originalFont <|> tb.fontFamily) "Arial"

def sessionRunToElement (run : SessionLineRunSnapshot) (content : List CodeUnit) (dx dy : ℚ) :
    TextElement where
  elementId := run.elementId
  bounds := { run.bounds with x := run.bounds.x + dx, y := run.bounds.y + dy }
  transform := transformOf tb
  visible := tb.visible.getD true
  content := content
  style := run.style.getD (boxStyle tb (familyOf tb) (tb.fontSize.getD 12))
  index := run.index

end

/-! ## Lines of runs -/

/-- A single space is put between two pieces when neither has white space there. -/
def separator (out piece : List CodeUnit) : List CodeUnit :=
  let white (c : CodeUnit) := isWhitespace c.toNat
  if out = [] ∨ out.getLast?.any white ∨ piece.head?.any white then [] else [space]

def joinPieces (out : List CodeUnit) : List (List CodeUnit) → List CodeUnit
  | [] => out
  | piece :: rest =>
    if piece = [] then joinPieces out rest
    else joinPieces (out ++ separator out piece ++ piece) rest

def joinLineRunContents (line : List SessionLineRunSnapshot) : List CodeUnit :=
  joinPieces [] (line.map SessionLineRunSnapshot.content)

/-- The characters of each run in the joined line; an empty run has none. -/
def lineRunCharRanges (out : List CodeUnit) :
    List SessionLineRunSnapshot → List (Option (Nat × Nat))
  | [] => []
  | run :: rest =>
    if run.content = [] then none :: lineRunCharRanges out rest
    else
      let start := out ++ separator out run.content
      some (start.length, start.length + run.content.length) ::
        lineRunCharRanges (start ++ run.content) rest

/-- The run that the edit of `[p, oldEnd)` falls into. -/
def editTarget (ranges : List (Option (Nat × Nat))) (p oldEnd : Nat) : Option Nat :=
  let first (holds : Nat → Nat → Bool) : Option Nat :=
    ranges.findIdx? fun range => range.any fun r => holds r.1 r.2
  if p < oldEnd then first fun start stop => start ≤ p && oldEnd ≤ stop
  else
    first (fun start stop => start < p && p < stop) <|> first (fun _ stop => stop == p) <|>
      first (fun start _ => start == p)

/-- The run that the whole edit falls into, and its new content. -/
def mapLineEditToSingleRun (line : List SessionLineRunSnapshot) (oldText newText : List CodeUnit) :
    Option (Nat × List CodeUnit) := do
  guard ¬(line = [] ∨ oldText = newText)
  guard (joinLineRunContents line = oldText)
  let p := Windows.commonPrefix oldText newText
  let s := Windows.commonSuffix oldText newText
  let oldEnd := oldText.length - s
  let newEnd := newText.length - s
  let ranges := lineRunCharRanges [] line
  let target ← editTarget ranges p oldEnd
  let (run, range) ← (line.zip ranges)[target]?
  let (start, _) ← range
  return (target, run.content.take (p - start) ++ (newText.drop p).take (newEnd - p) ++
    run.content.drop (oldEnd - start))

/-! ## The commit -/

section
variable (tb : SessionTextbox)

def origin : ℚ × ℚ := tb.data.sessionOrigin.getD (tb.left.getD 0, tb.top.getD 0)

def moveDelta : ℚ × ℚ :=
  (tb.left.getD (origin tb).1 - (origin tb).1, tb.top.getD (origin tb).2 - (origin tb).2)

/-- The box is elsewhere than at its origin, by more than a hundredth of a point. -/
def Moved (d : ℚ × ℚ) : Prop := 1 / 100 < |d.1| ∨ 1 / 100 < |d.2|

instance (d : ℚ × ℚ) : Decidable (Moved d) := by
  unfold Moved
  infer_instance

def baselineTexts (lineRuns : List (List SessionLineRunSnapshot)) : List (List CodeUnit) :=
  match tb.data.sessionLineTexts, tb.data.sessionOriginalText with
  | some texts, _ => texts
  | none, some text => text.splitOn newline
  | none, none =>
    lineRuns.map fun line => [space].intercalate (line.map SessionLineRunSnapshot.content)

def logicalLines : List (List CodeUnit) := (tb.text.getD []).splitOn newline

/-- The lines as the box wraps them, where it says so. -/
def visualLines : List (List CodeUnit) :=
  match tb.textLines with
  | some (line :: lines) => line :: lines
  | _ => logicalLines tb

/-- The elements of one line whose number of lines is kept. -/
def lineElements (d : ℚ × ℚ) (line : List SessionLineRunSnapshot)
    (oldText newText : Option (List CodeUnit)) : List TextElement :=
  if line = [] ∨ (newText = oldText ∧ ¬Moved d) then []
  else if newText = oldText then
    line.map fun run => sessionRunToElement tb run run.content d.1 d.2
  else
    match mapLineEditToSingleRun line (oldText.getD []) (newText.getD []) with
    | some (runIndex, content) =>
      line.zipIdx.filterMap fun (run, j) =>
        if j = runIndex then some (sessionRunToElement tb run content d.1 d.2)
        else if Moved d then some (sessionRunToElement tb run run.content d.1 d.2)
        else none
    | none =>
      match line with
      | [] => []
      | run :: rest =>
        sessionRunToElement tb run (newText.getD []) d.1 d.2 ::
          rest.map fun run => sessionRunToElement tb run [] d.1 d.2

def updateElements (lineRuns : List (List SessionLineRunSnapshot)) : List TextElement :=
  lineRuns.zipIdx.flatMap fun (line, i) =>
    lineElements tb (moveDelta tb) line (baselineTexts tb lineRuns)[i]? (logicalLines tb)[i]?

end

/-! ## Reflow -/

structure CharStyleSnapshot where
  fontFamily : String
  fontSize : ℚ
  fontWeight : FontWeight
  fontStyle : FontStyle
  fill : String
  underline : Bool
  linethrough : Bool
  charSpacing : ℚ
  fontId : Option String
deriving DecidableEq

section
variable (numberText : ℚ → String) (generateId : Nat → Nat → String) (tb : SessionTextbox)

/-- `numberText` is how a number reads in a text. -/
def charStyleKey (s : CharStyleSnapshot) : String :=
  "|".intercalate [s.fontFamily, numberText s.fontSize,
    if s.fontWeight = .bold then "bold" else "normal",
    if s.fontStyle = .italic then "italic" else "normal", s.fill,
    if s.underline then "1" else "0", if s.linethrough then "1" else "0",
    numberText s.charSpacing, s.fontId.getD ""]

/-- The key of a source run, with the same fields. -/
def runStyleKey (s : RunStyle) : String :=
  charStyleKey numberText ⟨s.fontFamily, s.fontSize, s.fontWeight, s.fontStyle, s.color,
    s.underline, s.strikethrough, s.letterSpacing, s.fontId⟩

/-- The overrides on the logical line of a visual line, and the offset of the window. -/
def overridesOf (visualLineIndex : Nat) : Option ((Nat → Option CharOverride) × Nat) := do
  let styles ← tb.styles
  let (line, offset) := (tb.styleMap visualLineIndex).getD (visualLineIndex, 0)
  let lineStyles ← styles line
  return (lineStyles, offset)

/-- A character inherits from the box what it does not override. -/
def charStyle (s : Option CharOverride) : CharStyleSnapshot where
  fontFamily := familyOf tb
  fontSize := (s.bind CharOverride.fontSize).getD (orNumber tb.fontSize 12)
  fontWeight := fontWeightOf ((s.bind CharOverride.fontWeight) <|> tb.fontWeight)
  fontStyle := fontStyleOf ((s.bind CharOverride.fontStyle) <|> tb.fontStyle)
  fill := (s.bind CharOverride.fill).getD (orText tb.fill "#000000")
  underline := (s.bind CharOverride.underline).getD (tb.underline.getD false)
  linethrough := (s.bind CharOverride.linethrough).getD (tb.linethrough.getD false)
  charSpacing := (s.bind CharOverride.charSpacing).getD (tb.charSpacing.getD 0)
  fontId := truthy tb.data.fontId

def extractVisualLineCharStyles (visualLineIndex lineLength : Nat) :
    Option (List CharStyleSnapshot) := do
  guard (0 < lineLength)
  let (lineStyles, offset) ← overridesOf tb visualLineIndex
  let window := (List.range' offset lineLength).map lineStyles
  guard (window.any Option.isSome)
  return window.map (charStyle tb)

/-- The votes for the overrides of a line, by size, colour, weight and slant. -/
def styleVotes (window : List (Option CharOverride)) : List (CharOverride × Nat) :=
  let key (s : CharOverride) := (s.fontSize, s.fill, s.fontWeight, s.fontStyle)
  (window.filterMap id).foldl (fun votes s =>
    if votes.any fun v => key v.1 = key s then
      votes.map fun v => if key v.1 = key s then (v.1, v.2 + 1) else v
    else votes ++ [(s, 1)]) []

/-- The first of the votes with the highest count. -/
def winner : List (CharOverride × Nat) → Option (CharOverride × Nat)
  | [] => none
  | v :: votes => some (votes.foldl (fun best v => if best.2 < v.2 then v else best) v)

def dominantSessionLineStyle (visualLineIndex lineLength : Nat) : RunStyle :=
  let base := boxStyle tb (familyOf tb) (orNumber tb.fontSize 12)
  match overridesOf tb visualLineIndex with
  | none => base
  | some (lineStyles, offset) =>
    match winner (styleVotes ((List.range' offset lineLength).map lineStyles)) with
    | none => base
    | some (s, count) =>
      if 2 * count ≤ lineLength then base
      else
        { base with
          fontSize := s.fontSize.getD base.fontSize
          color := s.fill.getD base.color
          fontWeight := if s.fontWeight.isSome then fontWeightOf s.fontWeight else base.fontWeight
          fontStyle := if s.fontStyle.isSome then fontStyleOf s.fontStyle else base.fontStyle }

/-- Contiguous characters under one key. -/
structure StyleGroup where
  runStart : Nat
  style : CharStyleSnapshot
  slice : List CodeUnit

/-- The group at hand is closed where the key of the next character differs. -/
def styleGroups (group : StyleGroup) (c : Nat) :
    List (CodeUnit × CharStyleSnapshot) → List StyleGroup
  | [] => [group]
  | (char, style) :: rest =>
    if charStyleKey numberText style ≠ charStyleKey numberText group.style then
      group :: styleGroups ⟨c, style, [char]⟩ (c + 1) rest
    else styleGroups { group with slice := group.slice ++ [char] } (c + 1) rest

/-- The groups of a line whose characters have the styles. -/
def lineGroups (text : List CodeUnit) (styles : List CharStyleSnapshot) : List StyleGroup :=
  match text.zip styles with
  | [] => []
  | (char, style) :: rest => styleGroups numberText ⟨0, style, [char]⟩ 1 rest

/-- The first source run under a key lends its id. -/
def sourceStyleByKey (lineRuns : List (List SessionLineRunSnapshot)) (key : String) :
    Option String :=
  (lineRuns.flatten.find? fun run => run.style.any fun s => runStyleKey numberText s = key).map
    SessionLineRunSnapshot.elementId

/-- `tb.lineHeight && tb.lineHeight > 0 ? tb.lineHeight : 1.2` -/
def boxLineHeight : ℚ :=
  match tb.lineHeight with
  | some lineHeight => if 0 < lineHeight then lineHeight else 6 / 5
  | none => 6 / 5

def lineStep : ℚ := orNumber tb.fontSize 12 * boxLineHeight tb

def blockWidth (lineRuns : List (List SessionLineRunSnapshot)) : ℚ :=
  let firstWidth := (lineRuns.head?.bind List.head?).map fun run => run.bounds.width
  orNumber tb.width (orNumber firstWidth 100) * tb.scaleX.getD 1

def lineBox (lineRuns : List (List SessionLineRunSnapshot)) (i : Nat) (height : ℚ) : Bounds where
  x := tb.left.getD (origin tb).1
  y := tb.top.getD (origin tb).2 + i * lineStep tb
  width := blockWidth tb lineRuns
  height := height

def groupStyle (cs : CharStyleSnapshot) : RunStyle :=
  { boxStyle tb cs.fontFamily cs.fontSize with
    fontWeight := cs.fontWeight
    fontStyle := cs.fontStyle
    color := cs.fill
    letterSpacing := cs.charSpacing
    underline := cs.underline
    strikethrough := cs.linethrough
    fontId := truthy cs.fontId }

/-- `generateId i c` is what `generateId()` yields for the run of line `i` that starts at `c`. -/
def addedLine (lineRuns : List (List SessionLineRunSnapshot)) (i : Nat) (text : List CodeUnit) :
    List TextElement :=
  if text = [] then []
  else
    match extractVisualLineCharStyles tb i text.length with
    | none =>
      [{ elementId := generateId i 0
         bounds := lineBox tb lineRuns i (orNumber tb.fontSize 12)
         transform := transformOf tb
         visible := tb.visible.getD true
         content := text
         style := dominantSessionLineStyle tb i text.length
         index := none }]
    | some styles =>
      (lineGroups numberText text styles).map fun group =>
        { elementId :=
            (sourceStyleByKey numberText lineRuns (charStyleKey numberText group.style)).getD
              (generateId i group.runStart)
          bounds := lineBox tb lineRuns i group.style.fontSize
          transform := transformOf tb
          visible := tb.visible.getD true
          content := group.slice
          style := groupStyle tb group.style
          index := none }

def addedElements (lineRuns : List (List SessionLineRunSnapshot)) : List TextElement :=
  (visualLines tb).zipIdx.flatMap fun (text, i) =>
    addedLine numberText generateId tb lineRuns i text

def removedElementIds (lineRuns : List (List SessionLineRunSnapshot)) : List String :=
  lineRuns.flatten.map SessionLineRunSnapshot.elementId

/-- The number of lines is the session's, and no line is wrapped. -/
def NoReflow (lineRuns : List (List SessionLineRunSnapshot)) : Prop :=
  (logicalLines tb).length = lineRuns.length ∧
    (visualLines tb).length = (logicalLines tb).length

instance (lineRuns : List (List SessionLineRunSnapshot)) : Decidable (NoReflow tb lineRuns) := by
  unfold NoReflow
  infer_instance

def commitParagraphSession : ParagraphSessionCommit :=
  match tb.data.lineRuns with
  | none | some [] => .unchanged
  | some lineRuns =>
    if logicalLines tb = baselineTexts tb lineRuns ∧ ¬Moved (moveDelta tb) then .unchanged
    else if NoReflow tb lineRuns then .update (updateElements tb lineRuns)
    else
      .reflow (removedElementIds lineRuns) (addedElements numberText generateId tb lineRuns)

end

/-! ## The refresh -/

/-- The line as the commit of its edit leaves it. -/
def refreshLine (line : List SessionLineRunSnapshot) (oldText newText : Option (List CodeUnit)) :
    List SessionLineRunSnapshot :=
  match newText with
  | none => line
  | some newText =>
    if some newText = oldText then line
    else
      match mapLineEditToSingleRun line (oldText.getD []) newText with
      | some (runIndex, content) => line.modify runIndex fun run => { run with content := content }
      | none =>
        match line with
        | [] => []
        | run :: rest =>
          { run with content := newText } :: rest.map fun run => { run with content := [] }

def refreshParagraphSessionAfterCommit (tb : SessionTextbox) (commit : ParagraphSessionCommit) :
    SessionData :=
  let lineRuns :=
    match commit with
    | .unchanged => tb.data.lineRuns
    | .update _ =>
      tb.data.lineRuns.map fun lineRuns =>
        lineRuns.zipIdx.map fun (line, i) =>
          refreshLine line (tb.data.sessionLineTexts.getD [])[i]? (logicalLines tb)[i]?
    | .reflow _ added =>
      some (added.map fun el => [⟨el.elementId, none, el.bounds, el.content, some el.style⟩])
  { tb.data with
    lineRuns := lineRuns
    sessionLineTexts := some (logicalLines tb)
    sessionOriginalText := some (tb.text.getD [])
    sessionOrigin := some (tb.left.getD 0, tb.top.getD 0) }

/-! ## Plain paragraphs -/

def wholeNumberText (n : ℚ) : String := String.ofList (Text.decimal n.num.toNat)

def numberedId (i c : Nat) : String :=
  String.ofList ("el_".toList ++ Text.decimal i ++ '_' :: Text.decimal c)

def helvetica : RunStyle where
  fontFamily := "Helvetica"
  originalFont := some "Helvetica"
  fontSize := 10
  fontWeight := .normal
  fontStyle := .normal
  color := "#000000"
  opacity := 1
  textAlign := "left"
  lineHeight := 1
  letterSpacing := 0
  underline := false
  strikethrough := false
  fontId := none

def helveticaRun (elementId content : String) (x y : ℚ) : SessionLineRunSnapshot :=
  ⟨elementId, some 0, ⟨x, y, 20, 10⟩, codeUnits content, some helvetica⟩

/-- The box of a session at its origin. -/
def sessionBox (text : String) (lineRuns : List (List SessionLineRunSnapshot)) :
    SessionTextbox where
  text := some (codeUnits text)
  textLines := none
  styles := none
  styleMap := fun _ => none
  left := some 0
  top := some 0
  width := some 20
  scaleX := some 1
  angle := some 0
  skewX := some 0
  skewY := some 0
  opacity := some 1
  visible := some true
  fill := some "#000000"
  fontSize := some 10
  fontFamily := some "pdf-helvetica"
  fontWeight := some (.text "normal")
  fontStyle := some "normal"
  textAlign := some "left"
  lineHeight := some 1
  charSpacing := some 0
  underline := some false
  linethrough := some false
  data :=
    { lineRuns := some lineRuns
      sessionOrigin := some (0, 0)
      sessionLineTexts := some (lineRuns.map joinLineRunContents)
      sessionOriginalText := none
      originalFont := some "Helvetica"
      fontId := none }

end GigaPdf.ParagraphSession
