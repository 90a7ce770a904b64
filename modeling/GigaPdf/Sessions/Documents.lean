import Mathlib.Data.Rat.Defs
import GigaPdf.Lib.Json
import GigaPdf.Models

/-!
# Documents of an editing session

The scene graph of a session, as `models/page.py`, `models/document.py` and `models/elements.py`
declare it, and its history: `push_history`.
-/

namespace GigaPdf.Sessions

inductive ElementType
  | text | image | shape | annotation | formField
deriving DecidableEq, Repr

/-- A `dict` with the names of its entries. -/
abbrev Dict := List (List Char × Json)

/-- `fields` are the other fields of the element, as `model_dump` returns them: under their own
names. -/
structure Element where
  elementId : List Char
  type : ElementType
  fields : Dict
  named : ∀ field ∈ fields,
    field.1 ≠ "element_id".toList ∧ field.1 ≠ "elementId".toList ∧ field.1 ≠ "type".toList

theorem noFields_named : ∀ field ∈ ([] : Dict),
    field.1 ≠ "element_id".toList ∧ field.1 ≠ "elementId".toList ∧ field.1 ≠ "type".toList :=
  List.forall_mem_nil _

structure Dimensions where
  width : ℚ
  height : ℚ
  rotation : Int
deriving DecidableEq

structure MediaBox where
  x : ℚ
  y : ℚ
  width : ℚ
  height : ℚ
deriving DecidableEq

structure PagePreview where
  thumbnailUrl : String
  fullUrl : String
deriving DecidableEq

structure PageObject where
  pageId : String
  pageNumber : Int
  dimensions : Dimensions
  mediaBox : MediaBox
  cropBox : Option MediaBox
  elements : List Element
  preview : Option PagePreview

/-- `other` are the fields besides the number of pages. -/
structure DocumentMetadata where
  pageCount : Nat
  other : Json

/-- The root of a scene graph, over what stands for a page in it. -/
structure DocumentObject (π : Type) where
  documentId : String
  metadata : DocumentMetadata
  pages : List π
  outlines : List Json
  namedDestinations : Dict
  embeddedFiles : List Json
  layers : List Json

/-! ## History -/

structure HistoryEntry where
  index : Nat
  action : String
  timestamp : Time
  canUndo : Bool
  canRedo : Bool
  affectedElements : List (List Char)
  affectedPages : List Int
deriving DecidableEq

structure HistoryState where
  currentIndex : Int
  history : List HistoryEntry
  maxHistorySize : Int
deriving DecidableEq

/-- `entries[:stop]`, where a negative `stop` counts from the end. -/
def sliceTo {α : Type} (entries : List α) (stop : Int) : List α :=
  if 0 ≤ stop then entries.take stop.toNat else entries.take (entries.length + stop).toNat

def HistoryState.pushHistory (state : HistoryState) (now : Time) (action : String)
    (affectedElements : List (List Char)) (affectedPages : List Int) : HistoryState :=
  let kept := sliceTo state.history (state.currentIndex + 1)
  let entry : HistoryEntry :=
    { index := kept.length
      action := action
      timestamp := now
      canUndo := true
      canRedo := false
      affectedElements := affectedElements
      affectedPages := affectedPages }
  -- The entry before the new one can be redone.
  let history := (kept.modify (kept.length - 1) fun e => { e with canRedo := true }) ++ [entry]
  if state.maxHistorySize < history.length then
    { state with history := history.tail, currentIndex := (history.length : Int) - 2 }
  else { state with history := history, currentIndex := (history.length : Int) - 1 }

end GigaPdf.Sessions
