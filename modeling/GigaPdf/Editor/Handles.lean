import GigaPdf.Editor.FormFills
import GigaPdf.Lib.Resources
import Mathlib.Data.List.Infix

/-!
# Handles

`applyOperations` with the documents that it opens. Each phase opens the bytes that the one before
has left, works on the handle and closes it; the redaction opens a document of its own. The engine
is whatever the calls on it return or raise.
-/

namespace GigaPdf.Handles

open Attempts Resources

/-- The calls on an element of a page. -/
inductive ElementCall
  | removeElement
  | transformElement (matrix : AffineMatrix)
  | setPathStyle (style : PathStyleOverride)
  | setElementOpacity (opacity : ℚ)
  | replaceText (text : String)
  | moveElement (delta : ℚ × ℚ)
  | reorderElement (toFront : Bool)

/-- The engine, loaded, and the renderers. A call on a handle has an effect whether it returns or
raises its message, and takes the page, the index and the handle, in this order. A read has no
effect, and takes the handle before the page. Elements are reported with their index. -/
structure DocumentEngine (ω β ρ : Type) where
  toLowerCase : String → String
  encryptionInfo : β → Except String Bool
  gigaOpen : β → Nat → ω → Except String Unit × ω
  close : Nat → ω → Except String Unit × ω
  saveCompressed : Nat → ω → Except String β × ω
  pageInfo : ω → Nat → Nat → Except String PageInfo
  textElements : ω → Nat → Nat → Except String (List (Nat × TextRun))
  imageElements : ω → Nat → Nat → Except String (List (Nat × ImageInfo))
  vectorPaths : ω → Nat → Nat → Except String (List (Nat × VectorPath))
  callElement : ElementCall → Nat → Nat → Nat → ω → Except String Bool × ω
  pageCount : ω → Nat → Except String Nat
  redact : Nat → Bounds → Nat → ω → Except String Int × ω
  setFontCacheForHandle : Nat → ω → ω
  addText : Nat → ElementRecord ρ → Nat → ω → Except String Unit × ω
  addImage : Nat → ElementRecord ρ → List UInt8 → Nat → ω → Except String Unit × ω
  addShape : Nat → ElementRecord ρ → Nat → ω → Except String Unit × ω
  addAnnotation : Nat → ElementRecord ρ → Nat → ω → Except String Unit × ω
  addFormField : Nat → ElementRecord ρ → Nat → ω → Except String Unit × ω
  fields : ω → Nat → Except String (List (String × FieldKind))
  hasCheckboxState : Bool
  setField : FormCall → Nat → ω → Except String Bool × ω

/-- `otherType` is the type of an element that is of none of the types the pass knows. -/
structure ApplyOptions (ρ : Type) where
  fontCache : Bool
  extractImageData : ElementRecord ρ → Except String (Option (List UInt8))
  otherType : ρ → Option String

section
variable {ω β ρ : Type} (engine : DocumentEngine ω β ρ)

abbrev Session (ω α : Type) := Attempt (Ledger ω) String α

/-! ## Opening and saving -/

def passwordRequired : String := "Document is encrypted and requires a password"

def openingError (message : String) : String :=
  if "encrypt".toList <:+: (engine.toLowerCase message).toList then passwordRequired
  else "Failed to open PDF: " ++ message

/-- Without a password. -/
def openDocument (bytes : β) : Session ω Nat :=
  if (engine.encryptionInfo bytes).toOption.getD false then throw passwordRequired
  else tryCatch (acquire (engine.gigaOpen bytes)) fun message => throw (openingError engine message)

def saveDocument (h : Nat) : Session ω β := use h (engine.saveCompressed h)

/-! ## The classification -/

def pdfBounds (world : ω) (h pageNumber : Nat) (bounds : Bounds) : Except String Bounds :=
  (engine.pageInfo world h pageNumber).map fun info => toPdfBounds info bounds

/-- The boxes before and after, where the operation has both. -/
def pdfBoxes (world : ω) (h : Nat) (op : ElementOp ρ) : Except String (Option (Bounds × Bounds)) :=
  match op.oldBounds, op.element.bounds with
  | some old, some new => do
    let pdfOld ← pdfBounds engine world h op.pageNumber old
    let pdfNew ← pdfBounds engine world h op.pageNumber new
    pure (some (pdfOld, pdfNew))
  | _, _ => pure none

/-- The element with the index, among those that the engine reports. -/
def reported {ι : Type} (index : Nat) (elements : List (Nat × ι)) : Option ι :=
  (elements.find? fun e => e.1 = index).map Prod.snd

/-- The engine is asked once for the elements of a page; as reads have no effect, to ask again is
the same. -/
def routeText (world : ω) (h originalIndex : Nat) (op : ElementOp ρ) (content : String)
    (style : TextStyle) (index : Nat) : Except String Route := do
  let runs ← engine.textElements world h op.pageNumber
  match reported index runs with
  | none => pure .fallback
  | some run =>
    if op.action = .delete then pure (.inPlace (plainOp op.pageNumber index originalIndex .remove))
    else if !styleMatchesRun engine.toLowerCase style run then pure .fallback
    else do
      let boxes ← pdfBoxes engine world h op
      let delta := boxes.map fun b => (b.2.x - b.1.x, b.2.y - b.1.y)
      pure (.inPlace
        { plainOp op.pageNumber index originalIndex .replace with
          newText := some content
          move := delta.filter fun d => moveTolerance < |d.1| ∨ moveTolerance < |d.2| })

def routeImage (world : ω) (h originalIndex : Nat) (op : ElementOp ρ) (opacity : ℚ) (index : Nat) :
    Except String Route := do
  let images ← engine.imageElements world h op.pageNumber
  match reported index images with
  | none => pure .fallback
  | some original =>
    if op.action = .delete then pure (.inPlace (plainOp op.pageNumber index originalIndex .remove))
    else if !rotationUnchanged original.rotation (op.element.rotation.getD original.rotation) then
      pure .fallback
    else do
      let boxes ← pdfBoxes engine world h op
      let matrix := boxes.bind fun b => computeAffineMatrix true b.1 b.2
      if opacityTolerance < |opacity - original.opacity| then
        pure (.inPlace
          { plainOp op.pageNumber index originalIndex .setOpacity with
            opacity := some (clamp01 opacity), matrix })
      else
        pure (geometryRoute op.pageNumber index originalIndex op.oldBounds op.element.bounds matrix)

def routeShape (world : ω) (h originalIndex : Nat) (op : ElementOp ρ) (style : ShapeStyle)
    (index : Nat) : Except String Route := do
  let paths ← engine.vectorPaths world h op.pageNumber
  match reported index paths with
  | none => pure .fallback
  | some original =>
    if op.action = .delete then pure (.inPlace (plainOp op.pageNumber index originalIndex .remove))
    else if !rotationUnchanged 0 (op.element.rotation.getD 0) then pure .fallback
    else
      let alphas := computeShapeOpacityChange style original
      match computeShapeStyleChange engine.toLowerCase style original with
      | .inexpressible => pure .fallback
      | .unchanged => do
        let boxes ← pdfBoxes engine world h op
        let matrix := boxes.bind fun b => computeAffineMatrix false b.1 b.2
        if alphas.1.isSome || alphas.2.isSome then
          pure (.inPlace
            { plainOp op.pageNumber index originalIndex .restyle with
              style := some { PathStyleOverride.empty with
                fillAlpha := alphas.1, strokeAlpha := alphas.2 }
              matrix })
        else
          pure (geometryRoute op.pageNumber index originalIndex op.oldBounds op.element.bounds
            matrix)
      | .override change => do
        let boxes ← pdfBoxes engine world h op
        let matrix := boxes.bind fun b => computeAffineMatrix false b.1 b.2
        pure (.inPlace
          { plainOp op.pageNumber index originalIndex .restyle with
            style := some { change with fillAlpha := alphas.1, strokeAlpha := alphas.2 }
            matrix })

def classifyOp (h originalIndex : Nat) (op : ElementOp ρ) : Session ω Route :=
  match op.action, validRunIndex op.element.index with
  | .add, _ => pure .fallback
  | .reorder, some index =>
    match op.toFront with
    | some toFront => pure (.inPlace
        { plainOp op.pageNumber index originalIndex .reorder with toFront := some toFront })
    | none => pure .dropped
  | .reorder, none => pure .dropped
  | _, index =>
    match op.element.body, index with
    | some (.formField fieldName value), _ => pure (classifyField op fieldName value)
    | some (.text content style), some index =>
      read h fun world => routeText engine world h originalIndex op content style index
    | some (.image opacity), some index =>
      read h fun world => routeImage engine world h originalIndex op opacity index
    | some (.shape style), some index =>
      read h fun world => routeShape engine world h originalIndex op style index
    | _, _ => pure .fallback

def classifyAll (ops : List (ElementOp ρ)) (h : Nat) : Session ω (List (ElementOp ρ × Route)) :=
  ops.zipIdx.mapM fun op => do
    let route ← classifyOp engine h op.2 op.1
    pure (op.1, route)

/-! ## The edits in place -/

def callsOf (op : InPlaceOp) : List (InPlaceCounter × ElementCall) :=
  let geometry := op.matrix.toList.map fun m => (InPlaceCounter.transformed, .transformElement m)
  match op.kind with
  | .remove => [(.removed, .removeElement)]
  | .transform => geometry
  | .restyle => geometry ++ op.style.toList.map fun s => (.restyled, .setPathStyle s)
  | .setOpacity => geometry ++ op.opacity.toList.map fun o => (.opacitySet, .setElementOpacity o)
  | .replace =>
    (.replaced, .replaceText (op.newText.getD "")) ::
      op.move.toList.map fun d => (.moved, .moveElement d)
  | .reorder => op.toFront.toList.map fun toFront => (.reordered, .reorderElement toFront)

/-- A call that raises ends the operation, which is logged; what was counted before it stays. -/
def performCalls (h pageNumber index : Nat) :
    List (InPlaceCounter × ElementCall) → Session ω (List InPlaceCounter)
  | [] => pure []
  | (counter, call) :: rest => do
    let result ← caught (use h (engine.callElement call pageNumber index h))
    match result with
    | .error _ => pure []
    | .ok done => do
      let counted ← performCalls h pageNumber index rest
      pure (if done then counter :: counted else counted)

/-- Page by page, the reorders last. -/
def editInPlace (h : Nat) (ops : List InPlaceOp) : Session ω (List InPlaceCounter) := do
  let byPage := Buckets.collect (fun op => some (op.pageNumber, op)) ops
  let edits := byPage.flatMap fun bucket =>
    (stableOps bucket.2 ++ reorderOps bucket.2).map fun op => (bucket.1, op)
  let counted ← edits.mapM fun edit => performCalls engine h edit.1 edit.2.index (callsOf edit.2)
  pure counted.flatten

/-- What was edited is saved. -/
def afterInPlaceBytes (input : β) (h : Nat) (edits : List InPlaceOp) : Session ω β :=
  if edits = [] then pure input else saveDocument engine h

structure InPlaceResult (β ρ : Type) where
  bytes : β
  counted : List InPlaceCounter
  fallbackOps : List (ElementOp ρ)
  formFillOps : List (Nat × FormFillOp ρ)

def inPlacePhase (input : β) (ops : List (ElementOp ρ)) (h : Nat) :
    Session ω (InPlaceResult β ρ) := do
  let routes ← classifyAll engine ops h
  let counted ← editInPlace engine h (inPlaceOps routes)
  let bytes ← afterInPlaceBytes engine input h (inPlaceOps routes)
  pure
    { bytes
      counted
      fallbackOps := fallbackOps routes
      formFillOps := routes.filterMap fun r =>
        (r.2.filled r.1.element).map fun fill => (r.1.pageNumber, fill) }

/-! ## What is left to the fallback -/

structure RedactionTarget where
  pageNumber : Nat
  bounds : Bounds

structure AddOp (ρ : Type) where
  pageNumber : Nat
  element : ElementRecord ρ
  originalIndex : Nat

structure Plan (ρ : Type) where
  redactionTargets : List RedactionTarget
  addOps : List (AddOp ρ)

variable (options : ApplyOptions ρ)

def elementType (element : ElementRecord ρ) : Option String :=
  match element.body with
  | some (.text ..) => some "text"
  | some (.image _) => some "image"
  | some (.shape _) => some "shape"
  | some ElementBody.annotation => some "annotation"
  | some (.formField ..) => some "form_field"
  | none => options.otherType element.rest

def oldBoundsRequired (opIndex : Nat) (element : ElementRecord ρ) : String :=
  "applyOperations: oldBounds is required for update operations (op[" ++ toString opIndex ++
    "], element type: " ++ (elementType options element).getD "unknown" ++ ")."

def planOp (h opIndex : Nat) (op : ElementOp ρ) : Session ω (Plan ρ) :=
  let target (bounds : Bounds) : Session ω RedactionTarget := do
    let bounds ← read h fun world => pdfBounds engine world h op.pageNumber bounds
    pure ⟨op.pageNumber, bounds⟩
  let addOp : AddOp ρ := ⟨op.pageNumber, op.element, opIndex⟩
  match op.action with
  | .add => pure ⟨[], [addOp]⟩
  | .update =>
    match op.oldBounds with
    | none => throw (oldBoundsRequired options opIndex op.element)
    | some oldBounds => do
      let target ← target oldBounds
      pure ⟨[target], [addOp]⟩
  | .delete =>
    match op.element.bounds.or op.oldBounds with
    | none => pure ⟨[], []⟩
    | some bounds => do
      let target ← target bounds
      pure ⟨[target], []⟩
  | .reorder => pure ⟨[], []⟩

def planFallback (ops : List (ElementOp ρ)) (h : Nat) : Session ω (Plan ρ) := do
  let plans ← ops.zipIdx.mapM fun op => planOp engine options h op.2 op.1
  pure ⟨plans.flatMap Plan.redactionTargets, plans.flatMap Plan.addOps⟩

/-! ## The redaction -/

structure ApplyRedactionsResult (β : Type) where
  bytes : β
  applied : Nat
  pagesAffected : Nat

/-- The number of targets applied, and the pages that they are on. -/
def redactTarget (doc totalPages : Nat) (out : Nat × List Nat) (target : RedactionTarget) :
    Session ω (Nat × List Nat) :=
  if target.pageNumber < 1 ∨ totalPages < target.pageNumber then pure out
  else do
    let removed ← use doc (engine.redact target.pageNumber target.bounds doc)
    pure (if 0 ≤ removed then (out.1 + 1, out.2.insert target.pageNumber) else out)

def applyRedactions (bytes : β) (targets : List RedactionTarget) :
    Session ω (ApplyRedactionsResult β) :=
  if targets = [] then pure ⟨bytes, 0, 0⟩
  else
    guarded (acquire (engine.gigaOpen bytes)) engine.close fun doc => do
      let totalPages ← read doc fun world => engine.pageCount world doc
      let out ← targets.foldlM (redactTarget engine doc totalPages) (0, [])
      let bytes ← saveDocument engine doc
      pure ⟨bytes, out.1, out.2.length⟩

structure Redacted (β : Type) where
  bytes : β
  redactionsApplied : Nat
  redactionSucceeded : Bool

/-- The pass goes on without a redaction that fails. -/
def redactFallback (bytes : β) (targets : List RedactionTarget) : Session ω (Redacted β) :=
  if targets = [] then pure ⟨bytes, 0, true⟩
  else do
    let result ← caught (applyRedactions engine bytes targets)
    match result with
    | .ok result => pure ⟨result.bytes, result.applied, true⟩
    | .error _ => pure ⟨bytes, 0, false⟩

/-! ## What is added -/

/-- Whether the addition counts: an element of another type is skipped, and an image without data
counts without being drawn. -/
def addElement (h : Nat) (op : AddOp ρ) : Session ω Bool :=
  match op.element.body with
  | some (.text ..) => do
    use h (engine.addText op.pageNumber op.element h)
    pure true
  | some (.image _) => do
    let imageData ← step fun s => (options.extractImageData op.element, s)
    match imageData with
    | some data => use h (engine.addImage op.pageNumber op.element data h)
    | none => pure ()
    pure true
  | some (.shape _) => do
    use h (engine.addShape op.pageNumber op.element h)
    pure true
  | some ElementBody.annotation => do
    use h (engine.addAnnotation op.pageNumber op.element h)
    pure true
  | some (.formField ..) => do
    use h (engine.addFormField op.pageNumber op.element h)
    pure true
  | none => pure false

def addFailed (op : AddOp ρ) (message : String) : String :=
  "applyOperations: op[" ++ toString op.originalIndex ++ "] failed (type=" ++
    (elementType options op.element).getD "unknown" ++ ", page=" ++ toString op.pageNumber ++
    ", elementId=" ++ op.element.elementId ++ "): " ++ message

def addOp (h : Nat) (op : AddOp ρ) : Session ω Bool :=
  tryCatch (addElement engine options h op) fun message => throw (addFailed options op message)

/-- The call that `fillOne` makes is answered by the engine. -/
def fillField (h : Nat) (fields : List (String × FieldKind)) (v : String × FieldValue) :
    Session ω HandleFillResult :=
  let answer (taken : Bool) : Option FormCall × HandleFillResult :=
    (⟨fields, engine.hasCheckboxState, fun _ => taken⟩ : FormHandle).fillOne v.1 v.2
  match (answer true).1 with
  | none => pure (answer true).2
  | some call => do
    let taken ← use h (engine.setField call h)
    pure (answer taken).2

/-- A field that is not filled is added as the first of its updates has it; that this fails is only
logged. -/
def materialise (h : Nat) (fills : List (Nat × FormFillOp ρ)) (result : HandleFillResult) :
    Session ω Bool :=
  match fills.find? fun fill => fill.2.fieldName = result.fieldName with
  | none => pure false
  | some fill => do
    let added ← caught (use h (engine.addFormField fill.1 fill.2.element h))
    pure added.toBool

structure FillCounts where
  formFieldsFilled : Nat
  addsApplied : Nat

def fillFields (h : Nat) (fills : List (Nat × FormFillOp ρ)) : Session ω FillCounts :=
  if fills = [] then pure ⟨0, 0⟩
  else do
    let fields ← read h fun world => engine.fields world h
    let results ← (objectEntries (valuesOf fills)).mapM (fillField engine h fields)
    let added ← (results.filter fun r => !r.success).mapM (materialise engine h fills)
    pure ⟨(results.filter HandleFillResult.success).length, added.count true⟩

structure AddResult (β : Type) where
  bytes : β
  addsApplied : Nat
  formFieldsFilled : Nat

def setFontCache (h : Nat) : Session ω Unit :=
  if options.fontCache then use h fun world => (.ok (), engine.setFontCacheForHandle h world)
  else pure ()

def addPhase (addOps : List (AddOp ρ)) (fills : List (Nat × FormFillOp ρ)) (h : Nat) :
    Session ω (AddResult β) := do
  setFontCache engine options h
  let added ← addOps.mapM (addOp engine options h)
  let filled ← fillFields engine h fills
  let bytes ← saveDocument engine h
  pure ⟨bytes, added.count true + filled.addsApplied, filled.formFieldsFilled⟩

/-! ## The pass -/

structure ApplyOperationsResult (β : Type) where
  bytes : β
  redactionTargetsCount : Nat
  redactionsApplied : Nat
  redactionSucceeded : Bool
  addsApplied : Nat
  inPlace : InPlaceCounter → Nat
  formFieldsFilled : Nat

def inPlaceSession (input : β) (ops : List (ElementOp ρ)) : Session ω (InPlaceResult β ρ) :=
  session (openDocument engine input) engine.close (inPlacePhase engine input ops)

def planSession (bytes : β) (ops : List (ElementOp ρ)) : Session ω (Plan ρ) :=
  session (openDocument engine bytes) engine.close (planFallback engine options ops)

def addSession (bytes : β) (addOps : List (AddOp ρ)) (fills : List (Nat × FormFillOp ρ)) :
    Session ω (AddResult β) :=
  session (openDocument engine bytes) engine.close (addPhase engine options addOps fills)

def applyOperations (input : β) (ops : List (ElementOp ρ)) :
    Session ω (ApplyOperationsResult β) := do
  let first ← inPlaceSession engine input ops
  let plan ← planSession engine options first.bytes first.fallbackOps
  let redacted ← redactFallback engine first.bytes plan.redactionTargets
  let last ← addSession engine options redacted.bytes plan.addOps first.formFillOps
  pure
    { bytes := last.bytes
      redactionTargetsCount := plan.redactionTargets.length
      redactionsApplied := redacted.redactionsApplied
      redactionSucceeded := redacted.redactionSucceeded
      addsApplied := last.addsApplied
      inPlace := fun counter => first.counted.count counter
      formFieldsFilled := last.formFieldsFilled }

/-! ## The classification of a page that can be read -/

section
variable {δ : Type} (pdf : PdfEngine δ ρ) (page : PdfPage δ)

/-- The engine reports the page under the handle. -/
structure Reports (world : ω) (h pageNumber : Nat) : Prop where
  lower : engine.toLowerCase = pdf.toLowerCase
  info : engine.pageInfo world h pageNumber = .ok page.info
  runs : ∃ runs, engine.textElements world h pageNumber = .ok runs ∧
    ∀ index, reported index runs = page.report pdf.textRun index
  images : ∃ images, engine.imageElements world h pageNumber = .ok images ∧
    ∀ index, reported index images = page.report pdf.imageInfo index
  paths : ∃ paths, engine.vectorPaths world h pageNumber = .ok paths ∧
    ∀ index, reported index paths = page.report pdf.vectorPath index

variable {engine pdf page}
variable {world : ω} {h k index : Nat} {op : ElementOp ρ}

theorem pdfBoxes_eq {info : PageInfo} (read : engine.pageInfo world h op.pageNumber = .ok info) :
    pdfBoxes engine world h op = .ok (op.oldBounds.bind fun old => op.element.bounds.map fun new =>
      (toPdfBounds info old, toPdfBounds info new)) := by
  rw [pdfBoxes]
  cases op.oldBounds with
  | none => rfl
  | some old =>
    cases op.element.bounds with
    | none => rfl
    | some new =>
      simp only [pdfBounds, read]
      rfl

theorem routeText_eq (reports : Reports engine pdf page world h op.pageNumber) (content : String)
    (style : TextStyle) :
    routeText engine world h k op content style index =
      .ok (classifyText pdf page k op content style index) := by
  obtain ⟨runs, read, same⟩ := reports.runs
  rw [routeText, read, classifyText, ← same, ← reports.lower]
  simp only [Except.bind, bind]
  cases reported index runs with
  | none => rfl
  | some run =>
    simp only
    split
    · rfl
    · split
      · rfl
      · rw [pdfBoxes_eq reports.info]
        cases op.oldBounds <;> cases op.element.bounds <;> rfl

theorem matrix_eq (image : Bool) (info : PageInfo) (oldBounds bounds : Option Bounds) :
    ((oldBounds.bind fun old => bounds.map fun new =>
        (toPdfBounds info old, toPdfBounds info new)).bind fun b =>
      computeAffineMatrix image b.1 b.2) = geometryMatrix info image oldBounds bounds := by
  cases oldBounds <;> cases bounds <;> rfl

theorem routeImage_eq (reports : Reports engine pdf page world h op.pageNumber) (opacity : ℚ) :
    routeImage engine world h k op opacity index =
      .ok (classifyImage pdf page k op opacity index) := by
  obtain ⟨images, read, same⟩ := reports.images
  rw [routeImage, read, classifyImage, ← same]
  simp only [Except.bind, bind]
  cases reported index images with
  | none => rfl
  | some original =>
    simp only
    split
    · rfl
    · split
      · rfl
      · rw [pdfBoxes_eq reports.info]
        simp only [matrix_eq]
        split <;> rfl

theorem routeShape_eq (reports : Reports engine pdf page world h op.pageNumber)
    (style : ShapeStyle) :
    routeShape engine world h k op style index =
      .ok (classifyShape pdf page k op style index) := by
  obtain ⟨paths, read, same⟩ := reports.paths
  rw [routeShape, read, classifyShape, ← same, ← reports.lower]
  simp only [Except.bind, bind]
  cases reported index paths with
  | none => rfl
  | some original =>
    simp only
    split
    · rfl
    · split
      · rfl
      · rw [pdfBoxes_eq reports.info]
        simp only [matrix_eq]
        cases computeShapeStyleChange engine.toLowerCase style original with
        | inexpressible => rfl
        | unchanged => simp only; split <;> rfl
        | override change => rfl

/-- Where the engine reports the page, an operation has the route that the page gives it. -/
theorem classifyOp_eq_classify {s : Ledger ω}
    (reports : Reports engine pdf page s.inner h op.pageNumber) :
    (outcome (classifyOp engine h k op) s).1 = .ok (classify pdf page k op) := by
  rw [classifyOp, classify]
  generalize op.action = action
  generalize validRunIndex op.element.index = index
  generalize op.element.body = body
  cases action with
  | add => rfl
  | reorder =>
    cases index with
    | none => rfl
    | some index => cases op.toFront <;> rfl
  | update | delete =>
    cases index with
    | none => rcases body with _ | ⟨_ | _ | _ | _ | _⟩ <;> rfl
    | some index =>
      cases body with
      | none => rfl
      | some body =>
        cases body with
        | text content style => exact routeText_eq reports content style
        | image opacity => exact routeImage_eq reports opacity
        | shape style => exact routeShape_eq reports style
        | annotation | formField => rfl

end

/-! ## When nothing raises on an open handle -/

/-- All reads of the classification return, and so does the save where something was edited. -/
structure InPlaceReturns (ops : List (ElementOp ρ)) (h : Nat) (s : Ledger ω) : Prop where
  classified : ∀ op ∈ ops.zipIdx, Returns (classifyOp engine h op.2 op.1) s
  saved : ∀ routes t, outcome (classifyAll engine ops h) s = (.ok routes, t) →
    inPlaceOps routes ≠ [] →
      Returns (saveDocument engine h) (outcome (editInPlace engine h (inPlaceOps routes)) t).2

/-- All updates have their old bounds, and the pages of all targets can be read. -/
structure PlanReturns (ops : List (ElementOp ρ)) (h : Nat) (s : Ledger ω) : Prop where
  oldBounds : ∀ op ∈ ops, op.action = .update → op.oldBounds.isSome = true
  pages : ∀ op ∈ ops, ∀ b ∈ redactionBounds op,
    ∃ info, engine.pageInfo s.inner h op.pageNumber = .ok info

/-- The fields can be read, and every setter returns. -/
structure FillsReturn (fills : List (Nat × FormFillOp ρ)) (h : Nat) (s : Ledger ω) : Prop where
  listed : fills ≠ [] → ∃ fields, engine.fields s.inner h = .ok fields
  set : fills ≠ [] → ∀ fields t,
    outcome (read h fun world => engine.fields world h) s = (.ok fields, t) →
      ∀ done v rest, objectEntries (valuesOf fills) = done ++ v :: rest →
        ∀ results u, outcome (done.mapM (fillField engine h fields)) t = (.ok results, u) →
          Returns (fillField engine h fields v) u

/-- Every addition returns after those before it, and then the fills and the save. -/
structure AddReturns (addOps : List (AddOp ρ)) (fills : List (Nat × FormFillOp ρ)) (h : Nat)
    (s : Ledger ω) : Prop where
  added : ∀ done op rest, addOps = done ++ op :: rest → ∀ counted t,
    outcome (done.mapM (addOp engine options h)) s = (.ok counted, t) →
      Returns (addElement engine options h op) t
  filled : ∀ counted t, outcome (addOps.mapM (addOp engine options h)) s = (.ok counted, t) →
    FillsReturn engine fills h t
  saved : ∀ counted t, outcome (addOps.mapM (addOp engine options h)) s = (.ok counted, t) →
    ∀ counts u, outcome (fillFields engine h fills) t = (.ok counts, u) →
      Returns (saveDocument engine h) u

/-- Nothing raises between an `openDocument` of the pass and its `closeDocument`. -/
structure Unbroken (input : β) (ops : List (ElementOp ρ)) (world : ω) : Prop where
  inPlace : ∀ h s, outcome (openDocument engine input) (.start world) = (.ok h, s) →
    InPlaceReturns engine ops h s
  plan : ∀ first s, outcome (inPlaceSession engine input ops) (.start world) = (.ok first, s) →
    ∀ h t, outcome (openDocument engine first.bytes) s = (.ok h, t) →
      PlanReturns engine first.fallbackOps h t
  additions : ∀ first s,
    outcome (inPlaceSession engine input ops) (.start world) = (.ok first, s) → ∀ plan t,
      outcome (planSession engine options first.bytes first.fallbackOps) s = (.ok plan, t) →
        ∀ redacted u,
          outcome (redactFallback engine first.bytes plan.redactionTargets) t = (.ok redacted, u) →
            ∀ h v, outcome (openDocument engine redacted.bytes) u = (.ok h, v) →
              AddReturns engine options plan.addOps first.formFillOps h
                (outcome (setFontCache engine options h) v).2

/-! ## The bodies use their handle -/

variable {engine options}

theorem opens_openDocument (bytes : β) : Opens (openDocument engine bytes) := by
  rw [openDocument]
  split
  · exact fun s => ⟨rfl, rfl, rfl⟩
  · exact (opens_acquire _).reworded (openingError engine)

theorem inspects_classifyOp (h k : Nat) (op : ElementOp ρ) :
    Inspects h (classifyOp engine h k op) := by
  rw [classifyOp]
  split
  · exact inspects_pure h _
  · split <;> exact inspects_pure h _
  · exact inspects_pure h _
  · split
    · exact inspects_pure h _
    · exact inspects_read h _
    · exact inspects_read h _
    · exact inspects_read h _
    · exact inspects_pure h _

theorem inspects_planOp (h k : Nat) (op : ElementOp ρ) :
    Inspects h (planOp engine options h k op) := by
  have target (bounds : Bounds) : Inspects h (read h (fun world =>
      pdfBounds engine world h op.pageNumber bounds) >>= fun b =>
        pure (⟨op.pageNumber, b⟩ : RedactionTarget)) :=
    (inspects_read h _).bind fun b => inspects_pure h _
  rw [planOp]
  split
  · exact inspects_pure h _
  · split
    · exact inspects_throw h _
    · exact (target _).bind fun _ => inspects_pure h _
  · split
    · exact inspects_pure h _
    · exact (target _).bind fun _ => inspects_pure h _
  · exact inspects_pure h _

theorem uses_classifyAll (ops : List (ElementOp ρ)) (h : Nat) :
    Follows (Uses h) (classifyAll engine ops h) := by
  refine follows_mapM (fun op => ?_) _
  exact (inspects_classifyOp h op.2 op.1).uses.bind fun route => follows_pure _

theorem uses_performCalls (h pageNumber index : Nat) (calls : List (InPlaceCounter × ElementCall)) :
    Follows (Uses h) (performCalls engine h pageNumber index calls) := by
  induction calls with
  | nil => exact follows_pure []
  | cons call rest ih =>
    refine (follows_use h _).caught.bind fun result => ?_
    cases result with
    | error => exact follows_pure []
    | ok done => exact ih.bind fun counted => follows_pure _

theorem uses_editInPlace (h : Nat) (ops : List InPlaceOp) :
    Follows (Uses h) (editInPlace engine h ops) := by
  rw [editInPlace]
  apply Follows.bind
  · exact follows_mapM (fun edit => uses_performCalls h _ _ _) _
  · exact fun counted => follows_pure _

theorem uses_saveDocument (h : Nat) : Follows (Uses h) (saveDocument engine h) := follows_use h _

theorem uses_afterInPlaceBytes (input : β) (h : Nat) (edits : List InPlaceOp) :
    Follows (Uses h) (afterInPlaceBytes engine input h edits) := by
  rw [afterInPlaceBytes]
  split
  · exact follows_pure input
  · exact uses_saveDocument h

theorem uses_inPlacePhase (input : β) (ops : List (ElementOp ρ)) (h : Nat) :
    Follows (Uses h) (inPlacePhase engine input ops h) := by
  refine (uses_classifyAll ops h).bind fun routes => (uses_editInPlace h _).bind fun counted => ?_
  exact (uses_afterInPlaceBytes input h _).bind fun bytes => follows_pure _

theorem uses_planFallback (ops : List (ElementOp ρ)) (h : Nat) :
    Follows (Uses h) (planFallback engine options ops h) := by
  refine Follows.bind (follows_mapM (fun op => ?_) _) fun plans => follows_pure _
  exact (inspects_planOp h op.2 op.1).uses

theorem uses_redactTarget (doc totalPages : Nat) (out : Nat × List Nat) (target : RedactionTarget) :
    Follows (Uses doc) (redactTarget engine doc totalPages out target) := by
  rw [redactTarget]
  split
  · exact follows_pure out
  · exact (follows_use doc _).bind fun removed => follows_pure _

theorem uses_addElement (h : Nat) (op : AddOp ρ) :
    Follows (Uses h) (addElement engine options h op) := by
  rw [addElement]
  split
  · exact (follows_use h _).bind fun _ => follows_pure true
  · refine Follows.bind (follows_step fun s => Std.Refl.refl s) fun imageData => ?_
    cases imageData with
    | none => exact follows_pure true
    | some data => exact (follows_use h _).bind fun _ => follows_pure true
  · exact (follows_use h _).bind fun _ => follows_pure true
  · exact (follows_use h _).bind fun _ => follows_pure true
  · exact (follows_use h _).bind fun _ => follows_pure true
  · exact follows_pure false

theorem uses_addOp (h : Nat) (op : AddOp ρ) : Follows (Uses h) (addOp engine options h op) :=
  (uses_addElement h op).tryCatch fun _ => follows_throw _

theorem uses_fillField (h : Nat) (fields : List (String × FieldKind)) (v : String × FieldValue) :
    Follows (Uses h) (fillField engine h fields v) := by
  rw [fillField]
  split
  · exact follows_pure _
  · exact (follows_use h _).bind fun taken => follows_pure _

theorem uses_materialise (h : Nat) (fills : List (Nat × FormFillOp ρ)) (result : HandleFillResult) :
    Follows (Uses h) (materialise engine h fills result) := by
  rw [materialise]
  split
  · exact follows_pure false
  · exact (follows_use h _).caught.bind fun added => follows_pure _

theorem uses_fillFields (h : Nat) (fills : List (Nat × FormFillOp ρ)) :
    Follows (Uses h) (fillFields engine h fills) := by
  rw [fillFields]
  split
  · exact follows_pure _
  · refine (follows_read h _).bind fun fields => ?_
    refine (follows_mapM (uses_fillField h fields) _).bind fun results => ?_
    exact (follows_mapM (uses_materialise h fills) _).bind fun added => follows_pure _

theorem uses_setFontCache (h : Nat) : Follows (Uses h) (setFontCache engine options h) := by
  rw [setFontCache]
  split
  · exact follows_use h _
  · exact follows_pure _

theorem uses_addPhase (addOps : List (AddOp ρ)) (fills : List (Nat × FormFillOp ρ)) (h : Nat) :
    Follows (Uses h) (addPhase engine options addOps fills h) := by
  refine (uses_setFontCache h).bind fun _ => ?_
  refine (follows_mapM (uses_addOp h) _).bind fun added => ?_
  refine (uses_fillFields h fills).bind fun filled => ?_
  exact (uses_saveDocument h).bind fun bytes => follows_pure _

/-! ## When the bodies return -/

theorem returns_classifyAll_iff {ops : List (ElementOp ρ)} {h : Nat} {s : Ledger ω} :
    Returns (classifyAll engine ops h) s ↔
      ∀ op ∈ ops.zipIdx, Returns (classifyOp engine h op.2 op.1) s := by
  have reads : ∀ op : ElementOp ρ × Nat,
      Reads (classifyOp engine h op.2 op.1 >>= fun route => pure (op.1, route)) :=
    fun op => (inspects_classifyOp h op.2 op.1).reads.bind fun route => reads_pure _
  exact (returns_mapM_iff_of_reads reads).trans (forall₂_congr fun op _ => returns_bind_pure_iff)

theorem returns_performCalls (h pageNumber index : Nat)
    (calls : List (InPlaceCounter × ElementCall)) (s : Ledger ω) :
    Returns (performCalls engine h pageNumber index calls) s := by
  induction calls generalizing s with
  | nil => exact returns_pure [] s
  | cons call rest ih =>
    refine returns_bind_iff.mpr ⟨⟨_, rfl⟩, fun result t _ => ?_⟩
    cases result with
    | error => exact returns_pure [] t
    | ok done => exact returns_bind_pure_iff.mpr (ih t)

/-- An edit in place that raises does not end the pass. -/
theorem returns_editInPlace (h : Nat) (ops : List InPlaceOp) (s : Ledger ω) :
    Returns (editInPlace engine h ops) s := by
  rw [editInPlace]
  refine returns_bind_pure_iff.mpr (returns_mapM_iff.mpr ?_)
  exact fun done edit rest _ bs t _ => returns_performCalls h _ _ _ t

theorem returns_afterInPlaceBytes_iff {input : β} {h : Nat} {edits : List InPlaceOp}
    {s : Ledger ω} : Returns (afterInPlaceBytes engine input h edits) s ↔
      (edits ≠ [] → Returns (saveDocument engine h) s) := by
  rw [afterInPlaceBytes]
  split
  · exact iff_of_true (returns_pure input s) fun edited => absurd ‹_› edited
  · constructor
    · exact fun saved _ => saved
    · exact fun saved => saved ‹_›

theorem returns_inPlacePhase_iff {input : β} {ops : List (ElementOp ρ)} {h : Nat} {s : Ledger ω} :
    Returns (inPlacePhase engine input ops h) s ↔ InPlaceReturns engine ops h s := by
  have edits (routes : List (ElementOp ρ × Route)) (t : Ledger ω)
      (result : List InPlaceCounter → β → InPlaceResult β ρ) :
      Returns (editInPlace engine h (inPlaceOps routes) >>= fun counted =>
        afterInPlaceBytes engine input h (inPlaceOps routes) >>= fun bytes =>
          pure (result counted bytes)) t ↔
        (inPlaceOps routes ≠ [] → Returns (saveDocument engine h)
          (outcome (editInPlace engine h (inPlaceOps routes)) t).2) := by
    have always : Returns (editInPlace engine h (inPlaceOps routes)) t := returns_editInPlace h _ t
    obtain ⟨counted, ok⟩ := always
    have ran : outcome (editInPlace engine h (inPlaceOps routes)) t = (.ok counted, _) :=
      Prod.ext ok rfl
    rw [returns_bind_iff_of_outcome ran, returns_bind_pure_iff, returns_afterInPlaceBytes_iff]
  rw [inPlacePhase, returns_bind_iff, returns_classifyAll_iff]
  constructor
  · rintro ⟨classified, later⟩
    exact ⟨classified, fun routes t ran => (edits routes t _).mp (later routes t ran)⟩
  · rintro ⟨classified, saved⟩
    exact ⟨classified, fun routes t ran => (edits routes t _).mpr (saved routes t ran)⟩

theorem returns_readBounds_iff {α : Type} {h pageNumber : Nat} {bounds : Bounds}
    {f : Bounds → α} {s : Ledger ω} :
    Returns (read h (fun world => pdfBounds engine world h pageNumber bounds) >>= fun b =>
        pure (f b)) s ↔ ∃ info, engine.pageInfo s.inner h pageNumber = .ok info := by
  rw [returns_bind_pure_iff, Returns, outcome_read]
  simp only [pdfBounds]
  cases engine.pageInfo s.inner h pageNumber with
  | error e =>
    refine iff_of_false ?_ ?_
    · rintro ⟨b, ⟨⟩⟩
    · rintro ⟨info, ⟨⟩⟩
  | ok info => exact iff_of_true ⟨_, rfl⟩ ⟨info, rfl⟩

theorem returns_planOp_iff {h k : Nat} {op : ElementOp ρ} {s : Ledger ω} :
    Returns (planOp engine options h k op) s ↔
      (op.action = .update → op.oldBounds.isSome = true) ∧ ∀ b ∈ redactionBounds op,
        ∃ info, engine.pageInfo s.inner h op.pageNumber = .ok info := by
  rw [planOp, redactionBounds]
  cases op.action with
  | add => exact iff_of_true (returns_pure _ s) ⟨nofun, nofun⟩
  | reorder => exact iff_of_true (returns_pure _ s) ⟨nofun, nofun⟩
  | update =>
    cases op.oldBounds with
    | none =>
      refine iff_of_false (not_returns_throw _ s) fun both => ?_
      exact absurd (both.1 rfl) Bool.false_ne_true
    | some old =>
      refine returns_bind_pure_iff.trans (returns_readBounds_iff.trans ?_)
      simp
  | delete =>
    cases op.element.bounds.or op.oldBounds with
    | none => exact iff_of_true (returns_pure _ s) ⟨nofun, nofun⟩
    | some bounds =>
      refine returns_bind_pure_iff.trans (returns_readBounds_iff.trans ?_)
      simp

theorem returns_planFallback_iff {ops : List (ElementOp ρ)} {h : Nat} {s : Ledger ω} :
    Returns (planFallback engine options ops h) s ↔ PlanReturns engine ops h s := by
  have reads : ∀ op : ElementOp ρ × Nat, Reads (planOp engine options h op.2 op.1) :=
    fun op => (inspects_planOp h op.2 op.1).reads
  rw [planFallback, returns_bind_pure_iff, returns_mapM_iff_of_reads reads]
  simp only [returns_planOp_iff]
  constructor
  · intro all
    have listed (op : ElementOp ρ) (mem : op ∈ ops) : ∃ k, (op, k) ∈ ops.zipIdx := by
      obtain ⟨k, here⟩ := List.mem_iff_getElem?.mp mem
      exact ⟨k, List.mk_mem_zipIdx_iff_getElem?.mpr here⟩
    constructor
    · intro op mem
      obtain ⟨k, here⟩ := listed op mem
      exact (all (op, k) here).1
    · intro op mem
      obtain ⟨k, here⟩ := listed op mem
      exact (all (op, k) here).2
  · intro plans op mem
    have listed := List.fst_mem_of_mem_zipIdx mem
    exact ⟨plans.oldBounds op.1 listed, plans.pages op.1 listed⟩

theorem returns_materialise (h : Nat) (fills : List (Nat × FormFillOp ρ))
    (result : HandleFillResult) (s : Ledger ω) :
    Returns (materialise engine h fills result) s := by
  rw [materialise]
  split
  · exact returns_pure false s
  · exact returns_bind_pure_iff.mpr ⟨_, rfl⟩

theorem returns_fillFields_iff {fills : List (Nat × FormFillOp ρ)} {h : Nat} {s : Ledger ω} :
    Returns (fillFields engine h fills) s ↔ FillsReturn engine fills h s := by
  rw [fillFields]
  split
  · rename_i none
    refine iff_of_true (returns_pure _ s) ⟨?_, ?_⟩
    · exact fun some => absurd none some
    · exact fun some => absurd none some
  · rename_i some
    have added (results : List HandleFillResult) (t : Ledger ω) :
        Returns ((results.filter fun r => !r.success).mapM (materialise engine h fills) >>=
          fun added => pure (⟨(results.filter HandleFillResult.success).length,
            added.count true⟩ : FillCounts)) t :=
      returns_bind_pure_iff.mpr (returns_mapM_iff.mpr fun done result rest _ bs t _ =>
        returns_materialise h fills result t)
    rw [returns_bind_iff]
    simp only [returns_bind_iff_left added, returns_mapM_iff]
    constructor
    · rintro ⟨listed, set⟩
      exact ⟨fun _ => listed, fun _ => set⟩
    · rintro ⟨listed, set⟩
      exact ⟨listed some, set some⟩

theorem outcome_setFontCache (h : Nat) (s : Ledger ω) :
    outcome (setFontCache engine options h) s =
      (.ok (), (outcome (setFontCache engine options h) s).2) := by
  rw [setFontCache]
  split <;> rfl

theorem returns_addPhase_iff {addOps : List (AddOp ρ)} {fills : List (Nat × FormFillOp ρ)} {h : Nat}
    {s : Ledger ω} :
    Returns (addPhase engine options addOps fills h) s ↔
      AddReturns engine options addOps fills h (outcome (setFontCache engine options h) s).2 := by
  have added (t : Ledger ω) : Returns (addOps.mapM (addOp engine options h)) t ↔
      ∀ done op rest, addOps = done ++ op :: rest → ∀ counted u,
        outcome (done.mapM (addOp engine options h)) t = (.ok counted, u) →
          Returns (addElement engine options h op) u := by
    rw [returns_mapM_iff]
    simp only [addOp, returns_tryCatch_throw_iff]
  rw [addPhase, returns_bind_iff_of_outcome (outcome_setFontCache h s), returns_bind_iff, added]
  simp only [returns_bind_iff (x := fillFields engine h fills), returns_fillFields_iff,
    returns_bind_pure_iff]
  constructor
  · rintro ⟨added, later⟩
    exact ⟨added, fun counted t ran => (later counted t ran).1,
      fun counted t ran => (later counted t ran).2⟩
  · rintro ⟨added, filled, saved⟩
    exact ⟨added, fun counted t ran => ⟨filled counted t ran, saved counted t ran⟩⟩

/-! ## What is released -/

theorem releases_applyRedactions (bytes : β) (targets : List RedactionTarget) :
    Releases (applyRedactions engine bytes targets) fun _ => True := by
  rw [applyRedactions]
  split
  · exact releases_pure _
  · refine releases_guarded (opens_acquire _) fun doc => ?_
    refine (follows_read doc _).bind fun totalPages => ?_
    refine (follows_foldlM (uses_redactTarget doc totalPages) targets _).bind fun out => ?_
    exact (uses_saveDocument doc).bind fun saved => follows_pure _

theorem releases_redactFallback (bytes : β) (targets : List RedactionTarget) :
    Releases (redactFallback engine bytes targets) fun _ => True := by
  rw [redactFallback]
  split
  · exact releases_pure _
  · refine ((releases_applyRedactions bytes targets).caught.bind
      (Q := fun _ _ => True) fun result => ?_).congr fun s => by simp
    cases result with
    | ok result => exact releases_pure _
    | error => exact releases_pure _

/-- Every document that the pass opens is closed once and not used after that, just where nothing
raises between the two. -/
theorem applyOperations_balanced_iff (input : β) (ops : List (ElementOp ρ)) (world : ω) :
    Balanced (outcome (applyOperations engine options input ops) (.start world)).2.trace ↔
      Unbroken engine options input ops world := by
  have first : Releases (inPlaceSession engine input ops) _ :=
    releases_session (opens_openDocument input) (uses_inPlacePhase input ops)
  have plan (r : InPlaceResult β ρ) :
      Releases (planSession engine options r.bytes r.fallbackOps) _ :=
    releases_session (opens_openDocument r.bytes) (uses_planFallback r.fallbackOps)
  have last (r : InPlaceResult β ρ) (p : Plan ρ) (d : Redacted β) :
      Releases (addSession engine options d.bytes p.addOps r.formFillOps) _ :=
    releases_session (opens_openDocument d.bytes) (uses_addPhase p.addOps r.formFillOps)
  have whole : Releases (applyOperations engine options input ops) _ :=
    first.bind fun r => (plan r).bind fun p =>
      (releases_redactFallback r.bytes p.redactionTargets).bind fun d =>
        (last r p d).bind fun l => releases_pure _
  refine (whole (.start world) (formed_start world) balanced_nil).balanced_iff.trans ?_
  simp only [returns_inPlacePhase_iff, returns_planFallback_iff, returns_addPhase_iff]
  constructor
  · rintro ⟨inPlace, later⟩
    refine ⟨inPlace, fun r s ran => (later r s ran).1, ?_⟩
    exact fun r s ran p t ran' d u ran'' => (((later r s ran).2 p t ran').2 d u ran'').1
  · rintro ⟨inPlace, plan, additions⟩
    refine ⟨inPlace, fun r s ran => ⟨plan r s ran, fun p t ran' => ⟨trivial, ?_⟩⟩⟩
    exact fun d u ran'' => ⟨additions r s ran p t ran' d u ran'', fun _ _ _ => trivial⟩

end

/-- An engine that does as it is asked, and a document without elements. -/
def blankEngine : DocumentEngine Unit (List UInt8) Unit where
  toLowerCase := String.toLower
  encryptionInfo _ := .ok false
  gigaOpen _ _ world := (.ok (), world)
  close _ world := (.ok (), world)
  saveCompressed _ world := (.ok [], world)
  pageInfo _ _ _ := .ok ⟨595, 842, .r0⟩
  textElements _ _ _ := .ok []
  imageElements _ _ _ := .ok []
  vectorPaths _ _ _ := .ok []
  callElement _ _ _ _ world := (.ok true, world)
  pageCount _ _ := .ok 1
  redact _ _ _ world := (.ok 0, world)
  setFontCacheForHandle _ world := world
  addText _ _ _ world := (.ok (), world)
  addImage _ _ _ _ world := (.ok (), world)
  addShape _ _ _ world := (.ok (), world)
  addAnnotation _ _ _ world := (.ok (), world)
  addFormField _ _ _ world := (.ok (), world)
  fields _ _ := .ok []
  hasCheckboxState := true
  setField _ _ world := (.ok true, world)

def blankOptions : ApplyOptions Unit := ⟨false, fun _ => .ok none, fun _ => none⟩

/-- An update of a text that the engine cannot edit in place, without the old bounds. -/
def unboundedUpdate : ElementOp Unit where
  action := .update
  pageNumber := 1
  element :=
    { elementId := "note"
      body := some (.text "note" ⟨"Helvetica", none, 12, .normal, .normal, "#000000"⟩)
      bounds := some ⟨10, 10, 80, 20⟩
      rotation := none
      index := none
      rest := () }
  oldBounds := none
  toFront := none

/-- The second document that is opened for it is never closed. -/
theorem applyOperations_unreleased :
    let run := outcome (applyOperations blankEngine blankOptions [] [unboundedUpdate]) (.start ())
    run.1 = .error (oldBoundsRequired blankOptions 0 unboundedUpdate.element) ∧
      run.2.trace = [.acquire 0, .release 0, .acquire 1] ∧ ¬Balanced run.2.trace := by
  intro run
  have trace : run.2.trace = [.acquire 0, .release 0, .acquire 1] := rfl
  refine ⟨rfl, trace, fun balanced => ?_⟩
  have once := balanced.once 1 (by simp [trace])
  rw [trace] at once
  exact absurd once (by decide)

end GigaPdf.Handles
