import GigaPdf.Editor.Elements
import GigaPdf.Editor.OperationsStore
import GigaPdf.Editor.Reorders

/-!
# Applying the operations

`applyOperations` on one page: the operations are classified against the page as it is opened, the
edits in place come first, then all redactions, then everything that is drawn, and last the form
fields are filled.
-/

namespace GigaPdf

open Upsert

/-- The engine and the renderers, as far as the pass calls them. `redacts` is false where
`applyRedactions` raises, `meets` tells what the redaction of a box removes, and `accepts` whether
the widgets of a field take a value. -/
structure PdfEngine (δ ρ : Type) extends Engine δ where
  toLowerCase : String → String
  textRun : δ → Option TextRun
  imageInfo : δ → Option ImageInfo
  vectorPath : δ → Option VectorPath
  redacts : Bool
  meets : Bounds → δ → Bool
  render : ElementRecord ρ → CallResult δ
  fieldName : δ → Option String
  accepts : FieldValue → List δ → Bool
  setValue : FieldValue → δ → δ

/-- The content stream, and the annotations with the widgets. -/
structure PdfPage (δ : Type) where
  info : PageInfo
  content : List δ
  annots : List δ

abbrev ElementOp (ρ : Type) := ElementOperation (ElementRecord ρ)

instance {ρ : Type} : HasElementId (ElementRecord ρ) := ⟨ElementRecord.elementId⟩

/-- What becomes of an operation. -/
inductive Route
  | inPlace (op : InPlaceOp)
  | fallback
  | fill (fieldName : String) (value : FieldValue)
  | dropped

section
variable {δ ρ : Type}

/-! ## The classification -/

/-- The element that the engine reports under an index. -/
def PdfPage.report {ι : Type} (page : PdfPage δ) (reported : δ → Option ι) (index : Nat) : Option ι :=
  page.content[index]?.bind reported

def plainOp (pageNumber index originalIndex : Nat) (kind : InPlaceKind) : InPlaceOp :=
  ⟨pageNumber, index, kind, none, none, none, none, none, none, originalIndex⟩

@[simp] theorem plainOp_index (pageNumber index originalIndex : Nat) (kind : InPlaceKind) :
    (plainOp pageNumber index originalIndex kind).index = index := rfl

@[simp] theorem plainOp_kind (pageNumber index originalIndex : Nat) (kind : InPlaceKind) :
    (plainOp pageNumber index originalIndex kind).kind = kind := rfl

/-- The matrix of a move or resize. -/
def geometryMatrix (info : PageInfo) (image : Bool) (oldBounds bounds : Option Bounds) :
    Option AffineMatrix :=
  oldBounds.bind fun old => bounds.bind fun new =>
    computeAffineMatrix image (toPdfBounds info old) (toPdfBounds info new)

/-- An update of an image or a shape that changes nothing that can be expressed in place. -/
def geometryRoute (pageNumber index originalIndex : Nat) (oldBounds bounds : Option Bounds)
    (matrix : Option AffineMatrix) : Route :=
  match matrix with
  | some m => .inPlace { plainOp pageNumber index originalIndex .transform with matrix := some m }
  | none => if oldBounds.isNone || bounds.isNone then .fallback else .dropped

def classifyText (engine : PdfEngine δ ρ) (page : PdfPage δ) (originalIndex : Nat)
    (op : ElementOp ρ) (content : String) (style : TextStyle) (index : Nat) : Route :=
  match page.report engine.textRun index with
  | none => .fallback
  | some run =>
    if op.action = .delete then .inPlace (plainOp op.pageNumber index originalIndex .remove)
    else if !styleMatchesRun engine.toLowerCase style run then .fallback
    else
      let delta := op.oldBounds.bind fun old => op.element.bounds.map fun new =>
        ((toPdfBounds page.info new).x - (toPdfBounds page.info old).x,
          (toPdfBounds page.info new).y - (toPdfBounds page.info old).y)
      .inPlace
        { plainOp op.pageNumber index originalIndex .replace with
          newText := some content
          move := delta.filter fun d => moveTolerance < |d.1| ∨ moveTolerance < |d.2| }

def classifyImage (engine : PdfEngine δ ρ) (page : PdfPage δ) (originalIndex : Nat)
    (op : ElementOp ρ) (opacity : ℚ) (index : Nat) : Route :=
  match page.report engine.imageInfo index with
  | none => .fallback
  | some original =>
    if op.action = .delete then .inPlace (plainOp op.pageNumber index originalIndex .remove)
    else if !rotationUnchanged original.rotation (op.element.rotation.getD original.rotation) then
      .fallback
    else
      let matrix := geometryMatrix page.info true op.oldBounds op.element.bounds
      if opacityTolerance < |opacity - original.opacity| then
        .inPlace
          { plainOp op.pageNumber index originalIndex .setOpacity with
            opacity := some (clamp01 opacity), matrix }
      else geometryRoute op.pageNumber index originalIndex op.oldBounds op.element.bounds matrix

def classifyShape (engine : PdfEngine δ ρ) (page : PdfPage δ) (originalIndex : Nat)
    (op : ElementOp ρ) (style : ShapeStyle) (index : Nat) : Route :=
  match page.report engine.vectorPath index with
  | none => .fallback
  | some original =>
    if op.action = .delete then .inPlace (plainOp op.pageNumber index originalIndex .remove)
    else if !rotationUnchanged 0 (op.element.rotation.getD 0) then .fallback
    else
      let matrix := geometryMatrix page.info false op.oldBounds op.element.bounds
      let alphas := computeShapeOpacityChange style original
      match computeShapeStyleChange engine.toLowerCase style original with
      | .inexpressible => .fallback
      | .unchanged =>
        if alphas.1.isSome || alphas.2.isSome then
          .inPlace
            { plainOp op.pageNumber index originalIndex .restyle with
              style := some { PathStyleOverride.empty with
                fillAlpha := alphas.1, strokeAlpha := alphas.2 }
              matrix }
        else geometryRoute op.pageNumber index originalIndex op.oldBounds op.element.bounds matrix
      | .override change =>
        .inPlace
          { plainOp op.pageNumber index originalIndex .restyle with
            style := some { change with fillAlpha := alphas.1, strokeAlpha := alphas.2 }
            matrix }

/-- An update of a form field whose widget stays where it is fills the field. -/
def classifyField (op : ElementOp ρ) (fieldName : String) (value : FieldValue) : Route :=
  let geometryUnchanged : Bool :=
    match op.oldBounds, op.element.bounds with
    | some old, some new => formGeometryUnchanged old new
    | _, _ => true
  if op.action = .update ∧ fieldName ≠ "" ∧ geometryUnchanged then .fill fieldName value
  else .fallback

def classify (engine : PdfEngine δ ρ) (page : PdfPage δ) (originalIndex : Nat) (op : ElementOp ρ) :
    Route :=
  match op.action, validRunIndex op.element.index with
  | .add, _ => .fallback
  | .reorder, some index =>
    match op.toFront with
    | some toFront =>
      .inPlace { plainOp op.pageNumber index originalIndex .reorder with toFront := some toFront }
    | none => .dropped
  | .reorder, none => .dropped
  | _, index =>
    match op.element.body, index with
    | some (.formField fieldName value), _ => classifyField op fieldName value
    | some (.text content style), some index =>
      classifyText engine page originalIndex op content style index
    | some (.image opacity), some index => classifyImage engine page originalIndex op opacity index
    | some (.shape style), some index => classifyShape engine page originalIndex op style index
    | _, _ => .fallback

/-! ## The pass -/

/-- The operations with their routes, in queued order. -/
def routed (engine : PdfEngine δ ρ) (page : PdfPage δ) (ops : List (ElementOp ρ)) :
    List (ElementOp ρ × Route) :=
  ops.zipIdx.map fun op => (op.1, classify engine page op.2 op.1)

def inPlaceOps (routes : List (ElementOp ρ × Route)) : List InPlaceOp :=
  routes.filterMap fun r => match r.2 with | .inPlace op => some op | _ => none

def fallbackOps (routes : List (ElementOp ρ × Route)) : List (ElementOp ρ) :=
  routes.filterMap fun r => match r.2 with | .fallback => some r.1 | _ => none

structure FormFillOp (ρ : Type) where
  element : ElementRecord ρ
  fieldName : String
  value : FieldValue

def formFillOps (routes : List (ElementOp ρ × Route)) : List (FormFillOp ρ) :=
  routes.filterMap fun r => match r.2 with | .fill name value => some ⟨r.1.element, name, value⟩ | _ => none

/-- The box that a fallback operation has redacted. -/
def redactionBounds (op : ElementOp ρ) : Option Bounds :=
  match op.action with
  | .update => op.oldBounds
  | .delete => op.element.bounds.or op.oldBounds
  | .add | .reorder => none

/-- The redaction of the boxes removes it. -/
def PdfEngine.redacted (engine : PdfEngine δ ρ) (info : PageInfo) (ops : List (ElementOp ρ))
    (d : δ) : Bool :=
  engine.redacts && (ops.filterMap redactionBounds).any fun b => engine.meets (toPdfBounds info b) d

/-- What the add pass draws: the additions, and the updates anew. -/
def addOps (ops : List (ElementOp ρ)) : List (ElementRecord ρ) :=
  (ops.filter fun op => (op.action = .add ∨ op.action = .update) ∧ op.element.body.isSome).map
    ElementOperation.element

/-- What a renderer draws; an image without data is not drawn. -/
def PdfEngine.draws (engine : PdfEngine δ ρ) (elements : List (ElementRecord ρ)) :
    List (ElementRecord ρ × δ) :=
  elements.filterMap fun e => match engine.render e with | .changed d => some (e, d) | _ => none

def CallResult.isRaised : CallResult δ → Bool
  | .raised => true
  | .changed _ | .refused => false

/-- Annotations and form fields are not part of the content stream. -/
def ElementRecord.inContent (e : ElementRecord ρ) : Bool :=
  match e.body with
  | some ElementBody.annotation | some (.formField ..) => false
  | _ => true

def drawnContent (drawn : List (ElementRecord ρ × δ)) : List δ :=
  (drawn.filter fun d => d.1.inContent).map Prod.snd

def drawnAnnots (drawn : List (ElementRecord ρ × δ)) : List δ :=
  (drawn.filter fun d => !d.1.inContent).map Prod.snd

/-- One value for each field: the last one that was queued. -/
def fillValues (fills : List (FormFillOp ρ)) : List (String × FieldValue) :=
  fills.foldl (fun values fill =>
    upsert (fun v => v.1 = fill.fieldName) (fun _ => (fill.fieldName, fill.value))
      (fill.fieldName, fill.value) values) []

/-- The widgets of a field. -/
def PdfEngine.widgets (engine : PdfEngine δ ρ) (name : String) (annots : List δ) : List δ :=
  annots.filter fun d => engine.fieldName d = some name

/-- `known` are the fields before the first setter. A setter changes the widgets of its field, or
fails. -/
def PdfEngine.fillField (engine : PdfEngine δ ρ) (known : List String) (name : String)
    (value : FieldValue) (annots : List δ) : Option (List δ) :=
  if name ∈ known ∧ engine.accepts value (engine.widgets name annots) then
    some (annots.map fun d => if engine.fieldName d = some name then engine.setValue value d else d)
  else none

/-- One setter: the annotations after it, and the fields that could not be filled. -/
def PdfEngine.fillStep (engine : PdfEngine δ ρ) (known : List String) (out : List δ × List String)
    (v : String × FieldValue) : List δ × List String :=
  match engine.fillField known v.1 v.2 out.1 with
  | some filled => (filled, out.2)
  | none => (out.1, out.2 ++ [v.1])

def PdfEngine.fillFields (engine : PdfEngine δ ρ) (values : List (String × FieldValue))
    (annots : List δ) : List δ × List String :=
  values.foldl (engine.fillStep (annots.filterMap engine.fieldName)) (annots, [])

section
variable (engine : PdfEngine δ ρ) (page : PdfPage δ) (ops : List (ElementOp ρ))

/-- The content after the edits in place. -/
def editedContent : List δ :=
  (engine.inPlacePage page.content (inPlaceOps (routed engine page ops))).elements

/-- What is left to redaction and drawing. -/
def fallbacks : List (ElementOp ρ) := fallbackOps (routed engine page ops)

def keptContent : List δ :=
  (editedContent engine page ops).filter fun d =>
    !engine.redacted page.info (fallbacks engine page ops) d

/-- What the add pass draws. -/
def drawnElements : List (ElementRecord ρ × δ) := engine.draws (addOps (fallbacks engine page ops))

def fills : List (FormFillOp ρ) := formFillOps (routed engine page ops)

def filledAnnots : List δ × List String :=
  engine.fillFields (fillValues (fills engine page ops))
    (page.annots ++ drawnAnnots (drawnElements engine page ops))

/-- A field that cannot be filled is added, as its first fill has it; that this raises is only
logged. -/
def materialisedFields : List (ElementRecord ρ × δ) :=
  engine.draws ((filledAnnots engine page ops).2.filterMap fun name =>
    ((fills engine page ops).find? fun fill => fill.fieldName = name).map FormFillOp.element)

/-- The page after the pass, unless an update to be drawn anew has no `oldBounds` or a renderer
raises. -/
def applyOperations : Option (PdfPage δ) :=
  if (fallbacks engine page ops).any fun op => op.action = .update && op.oldBounds.isNone then none
  else if (addOps (fallbacks engine page ops)).any fun e => (engine.render e).isRaised then none
  else
    some
      { info := page.info
        content := keptContent engine page ops ++ drawnContent (drawnElements engine page ops)
        annots := (filledAnnots engine page ops).1 ++
          (materialisedFields engine page ops).map Prod.snd }

end

/-! ## Where an edit in place comes from -/

section
variable {engine : PdfEngine δ ρ} {page : PdfPage δ} {ops : List (ElementOp ρ)}

theorem mem_routed {op : ElementOp ρ} {route : Route} :
    (op, route) ∈ routed engine page ops ↔
      ∃ k, (op, k) ∈ ops.zipIdx ∧ classify engine page k op = route := by
  rw [routed, List.mem_map]
  constructor
  · rintro ⟨⟨op', k⟩, mem, same⟩
    cases same
    exact ⟨k, mem, rfl⟩
  · rintro ⟨k, mem, rfl⟩
    exact ⟨(op, k), mem, rfl⟩

theorem mem_inPlaceOps {edit : InPlaceOp} :
    edit ∈ inPlaceOps (routed engine page ops) ↔
      ∃ op, (op, Route.inPlace edit) ∈ routed engine page ops := by
  rw [inPlaceOps, List.mem_filterMap]
  constructor
  · rintro ⟨⟨op, route⟩, mem, found⟩
    cases route with
    | inPlace _ =>
      cases found
      exact ⟨op, mem⟩
    | fallback | fill | dropped => cases found
  · rintro ⟨op, mem⟩
    exact ⟨_, mem, rfl⟩

theorem mem_fallbacks {op : ElementOp ρ} :
    op ∈ fallbacks engine page ops ↔ (op, Route.fallback) ∈ routed engine page ops := by
  rw [fallbacks, fallbackOps, List.mem_filterMap]
  constructor
  · rintro ⟨⟨op', route⟩, mem, found⟩
    cases route with
    | fallback =>
      cases found
      exact mem
    | inPlace | fill | dropped => cases found
  · intro mem
    exact ⟨_, mem, rfl⟩

/-- Only operations of the queue have a route. -/
theorem mem_of_routed {op : ElementOp ρ} {route : Route}
    (mem : (op, route) ∈ routed engine page ops) : op ∈ ops := by
  obtain ⟨k, queued, -⟩ := mem_routed.mp mem
  exact List.fst_mem_of_mem_zipIdx queued

end

/-- An edit in place names the element of its operation by its index. Elements are removed by
deletions that say what they delete, and moved by reorders. -/
structure EditsInPlace (op : ElementOp ρ) (edit : InPlaceOp) : Prop where
  index : validRunIndex op.element.index = some edit.index
  add : op.action ≠ .add
  removal : edit.kind = .remove → op.action = .delete ∧ op.element.body.isSome = true
  reorder : edit.kind = .reorder → op.action = .reorder

theorem geometryRoute_inPlace {pageNumber index originalIndex : Nat}
    {oldBounds bounds : Option Bounds} {matrix : Option AffineMatrix} {edit : InPlaceOp}
    (h : geometryRoute pageNumber index originalIndex oldBounds bounds matrix = .inPlace edit) :
    edit.index = index ∧ edit.kind = .transform := by
  cases matrix with
  | some m =>
    cases h
    exact ⟨rfl, rfl⟩
  | none =>
    simp only [geometryRoute] at h
    split at h <;> cases h

section
variable {engine : PdfEngine δ ρ} {page : PdfPage δ} {originalIndex index : Nat} {op : ElementOp ρ}
  {edit : InPlaceOp}

theorem classifyField_cases (op : ElementOp ρ) (fieldName : String) (value : FieldValue) :
    classifyField op fieldName value = .fill fieldName value ∨
      classifyField op fieldName value = .fallback := ite_eq_or_eq _ _ _

theorem classifyText_inPlace {content : String} {style : TextStyle}
    (h : classifyText engine page originalIndex op content style index = .inPlace edit) :
    edit.index = index ∧ edit.kind ≠ .reorder ∧ (edit.kind = .remove → op.action = .delete) := by
  rw [classifyText] at h
  split at h
  · cases h
  · split at h
    · cases h
      exact ⟨rfl, by simp, fun _ => ‹_›⟩
    · split at h
      · cases h
      · cases h
        exact ⟨rfl, by simp, by simp⟩

theorem classifyImage_inPlace {opacity : ℚ}
    (h : classifyImage engine page originalIndex op opacity index = .inPlace edit) :
    edit.index = index ∧ edit.kind ≠ .reorder ∧ (edit.kind = .remove → op.action = .delete) := by
  rw [classifyImage] at h
  split at h
  · cases h
  · split at h
    · cases h
      exact ⟨rfl, by simp, fun _ => ‹_›⟩
    · split at h
      · cases h
      · simp only at h
        split at h
        · cases h
          exact ⟨rfl, by simp, by simp⟩
        · obtain ⟨here, kind⟩ := geometryRoute_inPlace h
          exact ⟨here, by simp [kind], by simp [kind]⟩

theorem classifyShape_inPlace {style : ShapeStyle}
    (h : classifyShape engine page originalIndex op style index = .inPlace edit) :
    edit.index = index ∧ edit.kind ≠ .reorder ∧ (edit.kind = .remove → op.action = .delete) := by
  rw [classifyShape] at h
  split at h
  · cases h
  · split at h
    · cases h
      exact ⟨rfl, by simp, fun _ => ‹_›⟩
    · split at h
      · cases h
      · simp only at h
        split at h
        · cases h
        · split at h
          · cases h
            exact ⟨rfl, by simp, by simp⟩
          · obtain ⟨here, kind⟩ := geometryRoute_inPlace h
            exact ⟨here, by simp [kind], by simp [kind]⟩
        · cases h
          exact ⟨rfl, by simp, by simp⟩

theorem classify_inPlace (h : classify engine page originalIndex op = .inPlace edit) :
    EditsInPlace op edit := by
  have by_index : ∀ {i}, validRunIndex op.element.index = some i → op.action ≠ .add →
      op.element.body.isSome = true →
      edit.index = i ∧ edit.kind ≠ .reorder ∧ (edit.kind = .remove → op.action = .delete) →
      EditsInPlace op edit := by
    rintro i valid other typed ⟨rfl, kind, removal⟩
    exact ⟨valid, other, fun r => ⟨removal r, typed⟩, fun r => absurd r kind⟩
  have typed : ∀ {body}, op.element.body = some body → op.element.body.isSome = true :=
    fun body => by rw [body]; rfl
  rw [classify] at h
  split at h
  · cases h
  · rename_i i reorder valid
    split at h
    · cases h
      exact ⟨valid, by simp [reorder], by simp, fun _ => reorder⟩
    · cases h
  · cases h
  · rename_i not_add _ _
    have other : op.action ≠ .add := fun add => not_add add
    split at h
    · obtain filled | drawn := classifyField_cases op ‹String› ‹FieldValue›
      · rw [filled] at h
        cases h
      · rw [drawn] at h
        cases h
    · exact by_index ‹_› other (typed ‹_›) (classifyText_inPlace h)
    · exact by_index ‹_› other (typed ‹_›) (classifyImage_inPlace h)
    · exact by_index ‹_› other (typed ‹_›) (classifyShape_inPlace h)
    · cases h

end

theorem applyOperations_spec {engine : PdfEngine δ ρ} {page page' : PdfPage δ}
    {ops : List (ElementOp ρ)} (h : applyOperations engine page ops = some page') :
    page'.content = keptContent engine page ops ++ drawnContent (drawnElements engine page ops) ∧
      page'.annots = (filledAnnots engine page ops).1 ++
        (materialisedFields engine page ops).map Prod.snd := by
  simp only [applyOperations, Option.ite_none_left_eq_some, Option.some.injEq] at h
  obtain ⟨-, -, rfl⟩ := h
  exact ⟨rfl, rfl⟩

/-! ## Tagged pages -/

/-- The engine on a page whose parts carry the ids of the elements that they draw. -/
def PdfEngine.tagged (engine : PdfEngine δ ρ) : PdfEngine (δ × String) ρ where
  toEngine := engine.toEngine.tagged
  toLowerCase := engine.toLowerCase
  textRun d := engine.textRun d.1
  imageInfo d := engine.imageInfo d.1
  vectorPath d := engine.vectorPath d.1
  redacts := engine.redacts
  meets b d := engine.meets b d.1
  render e := (engine.render e).tag e.elementId
  fieldName d := engine.fieldName d.1
  accepts value ds := engine.accepts value (ds.map Prod.fst)
  setValue value d := (engine.setValue value d.1, d.2)

def PdfPage.untagged (page : PdfPage (δ × String)) : PdfPage δ :=
  ⟨page.info, page.content.map Prod.fst, page.annots.map Prod.fst⟩

section
variable (engine : PdfEngine δ ρ) (page : PdfPage (δ × String)) (ops : List (ElementOp ρ))

theorem report_untagged {ι : Type} (reported : δ → Option ι) (index : Nat) :
    page.report (fun d => reported d.1) index = page.untagged.report reported index := by
  rw [PdfPage.report, PdfPage.report, PdfPage.untagged, List.getElem?_map]
  cases page.content[index]? <;> rfl

theorem classify_tagged (originalIndex : Nat) (op : ElementOp ρ) :
    classify engine.tagged page originalIndex op =
      classify engine page.untagged originalIndex op := by
  have text : ∀ content style index,
      classifyText engine.tagged page originalIndex op content style index =
        classifyText engine page.untagged originalIndex op content style index := by
    intro content style index
    rw [classifyText, classifyText, ← report_untagged]
    rfl
  have image : ∀ opacity index,
      classifyImage engine.tagged page originalIndex op opacity index =
        classifyImage engine page.untagged originalIndex op opacity index := by
    intro opacity index
    rw [classifyImage, classifyImage, ← report_untagged]
    rfl
  have shape : ∀ style index,
      classifyShape engine.tagged page originalIndex op style index =
        classifyShape engine page.untagged originalIndex op style index := by
    intro style index
    rw [classifyShape, classifyShape, ← report_untagged]
    rfl
  simp only [classify, text, image, shape]

theorem routed_tagged : routed engine.tagged page ops = routed engine page.untagged ops := by
  simp only [routed, classify_tagged]

theorem editedContent_tagged :
    (editedContent engine.tagged page ops).map Prod.fst =
      editedContent engine page.untagged ops := by
  rw [editedContent, editedContent, routed_tagged]
  exact inPlacePage_tagged engine.toEngine page.content _

theorem keptContent_tagged :
    (keptContent engine.tagged page ops).map Prod.fst = keptContent engine page.untagged ops := by
  rw [keptContent, keptContent, fallbacks, fallbacks, routed_tagged, ← editedContent_tagged,
    List.filter_map]
  rfl

/-- What is drawn carries the id of its element. -/
theorem draws_tagged (elements : List (ElementRecord ρ)) :
    engine.tagged.draws elements =
      (engine.draws elements).map fun d => (d.1, (d.2, d.1.elementId)) := by
  rw [PdfEngine.draws, PdfEngine.draws, List.map_filterMap]
  congr 1
  funext e
  have rendered : engine.tagged.render e = (engine.render e).tag e.elementId := rfl
  rw [rendered]
  cases engine.render e <;> rfl

theorem drawnElements_tagged :
    drawnElements engine.tagged page ops =
      (drawnElements engine page.untagged ops).map fun d => (d.1, (d.2, d.1.elementId)) := by
  rw [drawnElements, drawnElements, fallbacks, fallbacks, routed_tagged, draws_tagged]

theorem drawnContent_tagged (drawn : List (ElementRecord ρ × δ)) :
    drawnContent (drawn.map fun d => (d.1, (d.2, d.1.elementId))) =
      (drawn.filter fun d => d.1.inContent).map fun d => (d.2, d.1.elementId) := by
  rw [drawnContent, List.filter_map, List.map_map]
  rfl

theorem drawnAnnots_tagged (drawn : List (ElementRecord ρ × δ)) :
    drawnAnnots (drawn.map fun d => (d.1, (d.2, d.1.elementId))) =
      (drawn.filter fun d => !d.1.inContent).map fun d => (d.2, d.1.elementId) := by
  rw [drawnAnnots, List.filter_map, List.map_map]
  rfl

theorem fillField_tagged (known : List String) (name : String) (value : FieldValue)
    (annots : List (δ × String)) :
    (engine.tagged.fillField known name value annots).map (List.map Prod.fst) =
      engine.fillField known name value (annots.map Prod.fst) := by
  have widgets : (engine.tagged.widgets name annots).map Prod.fst =
      engine.widgets name (annots.map Prod.fst) := by
    rw [PdfEngine.widgets, PdfEngine.widgets, List.filter_map]
    rfl
  have accepted : engine.tagged.accepts value (engine.tagged.widgets name annots) =
      engine.accepts value (engine.widgets name (annots.map Prod.fst)) := by
    rw [← widgets]
    rfl
  rw [PdfEngine.fillField, PdfEngine.fillField, accepted]
  split
  · rw [Option.map_some, List.map_map, List.map_map]
    congr 2
    funext d
    by_cases named : engine.fieldName d.1 = some name
    · have named' : engine.tagged.fieldName d = some name := named
      simp only [Function.comp, named, named', if_true]
      rfl
    · have named' : ¬engine.tagged.fieldName d = some name := named
      simp only [Function.comp, named, named', if_false]
  · rfl

theorem fillStep_tagged (known : List String) (out : List (δ × String) × List String)
    (v : String × FieldValue) :
    ((engine.tagged.fillStep known out v).1.map Prod.fst, (engine.tagged.fillStep known out v).2) =
      engine.fillStep known (out.1.map Prod.fst, out.2) v := by
  rw [PdfEngine.fillStep, PdfEngine.fillStep, ← fillField_tagged]
  cases engine.tagged.fillField known v.1 v.2 out.1 <;> rfl

theorem fillFields_tagged (values : List (String × FieldValue)) (annots : List (δ × String)) :
    ((engine.tagged.fillFields values annots).1.map Prod.fst,
        (engine.tagged.fillFields values annots).2) =
      engine.fillFields values (annots.map Prod.fst) := by
  have known : (annots.map Prod.fst).filterMap engine.fieldName =
      annots.filterMap engine.tagged.fieldName := by
    rw [List.filterMap_map]
    rfl
  have all : ∀ (values : List (String × FieldValue)) (out : List (δ × String) × List String)
      (fields : List String),
      ((values.foldl (engine.tagged.fillStep fields) out).1.map Prod.fst,
          (values.foldl (engine.tagged.fillStep fields) out).2) =
        values.foldl (engine.fillStep fields) (out.1.map Prod.fst, out.2) := by
    intro values
    induction values with
    | nil => exact fun _ _ => rfl
    | cons v values ih =>
      intro out fields
      rw [List.foldl_cons, List.foldl_cons, ih, fillStep_tagged]
  rw [PdfEngine.fillFields, PdfEngine.fillFields, known]
  exact all values (annots, []) _

theorem render_tagged_isRaised (e : ElementRecord ρ) :
    (engine.tagged.render e).isRaised = (engine.render e).isRaised := by
  have rendered : engine.tagged.render e = (engine.render e).tag e.elementId := rfl
  rw [rendered]
  cases engine.render e <;> rfl

/-- **The ids change nothing of what the pass does.** -/
theorem applyOperations_tagged :
    (applyOperations engine.tagged page ops).map PdfPage.untagged =
      applyOperations engine page.untagged ops := by
  have fallbacks_eq : fallbacks engine.tagged page ops = fallbacks engine page.untagged ops := by
    rw [fallbacks, fallbacks, routed_tagged]
  have fills_eq : fills engine.tagged page ops = fills engine page.untagged ops := by
    rw [fills, fills, routed_tagged]
  have content : (drawnContent (drawnElements engine.tagged page ops)).map Prod.fst =
      drawnContent (drawnElements engine page.untagged ops) := by
    rw [drawnElements_tagged, drawnContent_tagged, List.map_map]
    rfl
  have annots : (drawnAnnots (drawnElements engine.tagged page ops)).map Prod.fst =
      drawnAnnots (drawnElements engine page.untagged ops) := by
    rw [drawnElements_tagged, drawnAnnots_tagged, List.map_map]
    rfl
  have filled : ((filledAnnots engine.tagged page ops).1.map Prod.fst,
      (filledAnnots engine.tagged page ops).2) = filledAnnots engine page.untagged ops := by
    rw [filledAnnots, filledAnnots, fills_eq, fillFields_tagged, List.map_append, annots]
    rfl
  have materialised : (materialisedFields engine.tagged page ops).map (fun d => d.2.1) =
      (materialisedFields engine page.untagged ops).map Prod.snd := by
    rw [materialisedFields, materialisedFields, draws_tagged, List.map_map, ← filled, fills_eq]
    rfl
  rw [applyOperations, applyOperations, fallbacks_eq]
  simp only [render_tagged_isRaised]
  split
  · rfl
  · split
    · rfl
    · rw [Option.map_some, PdfPage.untagged, List.map_append, List.map_append, content,
        keptContent_tagged, ← filled, ← materialised, List.map_map]
      rfl

end

end

end GigaPdf
