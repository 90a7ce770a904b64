import GigaPdf.Editor.Operations
import GigaPdf.Lib.Runs

/-!
# The scene graph and the binary

What the user does to a page changes its scene graph and is queued; a bake applies the queue to the
binary, and leaves the scene graph as it is. The parts of the page carry the ids of the elements
that they draw, which the pass does not read.
-/

namespace GigaPdf

open OperationsStore

inductive ElementType
  | text | image | shape | annotation | formField
deriving DecidableEq

def ElementBody.type : ElementBody → ElementType
  | .text .. => .text
  | .image .. => .image
  | .shape .. => .shape
  | ElementBody.annotation => ElementType.annotation
  | .formField .. => .formField

section
variable {δ ρ : Type}

def ElementRecord.type (e : ElementRecord ρ) : Option ElementType := e.body.map ElementBody.type

/-- The record of a deletion: `{ elementId, bounds, index }`. -/
def ElementRecord.deletion (e : ElementRecord ρ) : ElementRecord ρ :=
  { e with body := none, rotation := none }

/-- The scene graph of a page, its pending operations, and the page in the binary. -/
structure EditorPage (δ ρ : Type) where
  scene : List (ElementRecord ρ)
  queue : List (ElementOp ρ)
  page : PdfPage (δ × String)

inductive EditorAction (ρ : Type)
  | add (element : ElementRecord ρ)
  | modify (element : ElementRecord ρ) (oldBounds : Option Bounds)
  | remove (elementId : String)
  | bake

/-- The widgets of a field share its value. -/
def syncSiblings (element : ElementRecord ρ) (scene : List (ElementRecord ρ)) :
    List (ElementRecord ρ) :=
  match element.body with
  | some (.formField fieldName value) =>
    if fieldName = "" then scene
    else
      scene.map fun sibling =>
        match sibling.body with
        | some (.formField fieldName' _) =>
          if fieldName' = fieldName ∧ sibling.elementId ≠ element.elementId then
            { sibling with body := some (.formField fieldName value) }
          else sibling
        | _ => sibling
  | _ => scene

def updateElement (element : ElementRecord ρ) (scene : List (ElementRecord ρ)) :
    List (ElementRecord ρ) :=
  scene.map fun e => if e.elementId = element.elementId then element else e

namespace EditorPage

/-- The ids of what the page draws. -/
def drawnIds (page : PdfPage (δ × String)) : List String :=
  page.content.map Prod.snd ++ page.annots.map Prod.snd

def sceneIds (σ : EditorPage δ ρ) : List String := σ.scene.map ElementRecord.elementId

/-- `handleElementAdded`. The id of a new element is fresh, and the element has no index. -/
def add (pageNumber : Nat) (element : ElementRecord ρ) (σ : EditorPage δ ρ) :
    Option (EditorPage δ ρ) :=
  if element.body.isSome ∧ element.index = none ∧ element.elementId ∉ σ.sceneIds ∧
      element.elementId ∉ drawnIds σ.page ∧
      ∀ op ∈ σ.queue, op.element.elementId ≠ element.elementId then
    some { σ with
      scene := σ.scene ++ [element]
      queue := queueAdd pageNumber element σ.queue }
  else none

/-- `handleElementModified`. An element keeps its type and its index; `oldBounds` is what the canvas
has tracked. -/
def modify (pageNumber : Nat) (element : ElementRecord ρ) (oldBounds : Option Bounds)
    (σ : EditorPage δ ρ) : Option (EditorPage δ ρ) :=
  if ∃ e ∈ σ.scene, e.elementId = element.elementId ∧ e.type = element.type ∧
      e.index = element.index then
    (oldBounds.or element.bounds).map fun bounds =>
      { σ with
        scene := syncSiblings element (updateElement element σ.scene)
        queue := queueUpdate pageNumber element bounds σ.queue }
  else none

/-- `handleElementRemoved`. -/
def remove (pageNumber : Nat) (elementId : String) (σ : EditorPage δ ρ) :
    Option (EditorPage δ ρ) :=
  (σ.scene.find? fun e => e.elementId = elementId).bind fun removed =>
    removed.bounds.map fun bounds =>
      { σ with
        scene := σ.scene.filter fun e => e.elementId ≠ elementId
        queue := queueDelete pageNumber removed.deletion bounds σ.queue }

/-- A bake that succeeds. The scene graph is not parsed anew. -/
def bake (engine : PdfEngine δ ρ) (σ : EditorPage δ ρ) : Option (EditorPage δ ρ) :=
  (applyOperations engine.tagged σ.page σ.queue).map fun page => { σ with page, queue := [] }

def step (engine : PdfEngine δ ρ) (pageNumber : Nat) (σ : EditorPage δ ρ) :
    EditorAction ρ → Option (EditorPage δ ρ)
  | .add element => σ.add pageNumber element
  | .modify element oldBounds => σ.modify pageNumber element oldBounds
  | .remove elementId => σ.remove pageNumber elementId
  | .bake => σ.bake engine

end EditorPage

end

/-! ## A page of images -/

def squarePage : PageInfo := ⟨100, 100, .r0⟩

/-- An image is its box. Moves are the only edits, and a redaction removes what its box overlaps. -/
def imagePdf : PdfEngine Bounds Unit where
  replaceText _ _ := .refused
  moveElement _ _ := .refused
  transformElement m b :=
    .changed ⟨b.x + m.e * b.width, b.y + m.f * b.height, m.a * b.width, m.d * b.height⟩
  setPathStyle _ _ := .refused
  setElementOpacity _ _ := .refused
  toLowerCase := id
  textRun _ := none
  imageInfo _ := some ⟨0, 1⟩
  vectorPath _ := none
  redacts := true
  meets r b := r.x < b.x + b.width && b.x < r.x + r.width && r.y < b.y + b.height &&
    b.y < r.y + r.height
  render e :=
    match e.bounds with
    | some b => .changed (toPdfBounds squarePage b)
    | none => .refused
  fieldName _ := none
  accepts _ _ := false
  setValue _ b := b

def image (elementId : String) (x : ℚ) (index : Option Int) : ElementRecord Unit :=
  ⟨elementId, some (.image 1), some ⟨x, 0, 10, 10⟩, none, index, ()⟩

def twoImages : EditorPage Bounds Unit where
  scene := [image "a" 0 (some 0), image "b" 20 (some 1)]
  queue := []
  page :=
    { info := squarePage
      content := [(⟨0, 90, 10, 10⟩, "a"), (⟨20, 90, 10, 10⟩, "b")]
      annots := [] }

end GigaPdf
