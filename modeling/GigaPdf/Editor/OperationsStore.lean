import GigaPdf.Editor.Coordinates
import GigaPdf.Lib.Upsert

/-!
# The operations store

The element operations that wait for the next save, in the order in which they were queued.
-/

namespace GigaPdf

open Upsert

inductive ElementOperationAction
  | add | update | delete | reorder
deriving DecidableEq

/-- `toFront` is set for a reorder. -/
structure ElementOperation (ε : Type) where
  action : ElementOperationAction
  pageNumber : Nat
  element : ε
  oldBounds : Option Bounds
  toFront : Option Bool
deriving DecidableEq

/-- What the store reads of an element. -/
class HasElementId (ε : Type) where
  elementId : ε → String

open HasElementId (elementId)

namespace OperationsStore

variable {ε : Type} [HasElementId ε]

/-- A queued operation of this kind on this element. -/
def isFor (action : ElementOperationAction) (pageNumber : Nat) (element : ε)
    (op : ElementOperation ε) : Bool :=
  op.action = action && op.pageNumber = pageNumber && elementId op.element = elementId element

omit [HasElementId ε] in
def queueAdd (pageNumber : Nat) (element : ε) (operations : List (ElementOperation ε)) :
    List (ElementOperation ε) :=
  operations ++ [⟨.add, pageNumber, element, none, none⟩]

/-- Repeated updates of an element keep the first `oldBounds` and the last state. -/
def queueUpdate (pageNumber : Nat) (element : ε) (oldBounds : Bounds)
    (operations : List (ElementOperation ε)) : List (ElementOperation ε) :=
  upsert (isFor .update pageNumber element) (fun existing => { existing with element })
    ⟨.update, pageNumber, element, some oldBounds, none⟩ operations

omit [HasElementId ε] in
/-- `element` is the record of the deletion: the id, the bounds and the index, if there is one. -/
def queueDelete (pageNumber : Nat) (element : ε) (bounds : Bounds)
    (operations : List (ElementOperation ε)) : List (ElementOperation ε) :=
  operations ++ [⟨.delete, pageNumber, element, some bounds, none⟩]

/-- Repeated reorders of an element keep the last one. -/
def queueReorder (pageNumber : Nat) (element : ε) (toFront : Bool)
    (operations : List (ElementOperation ε)) : List (ElementOperation ε) :=
  upsert (isFor .reorder pageNumber element)
    (fun existing => { existing with element, toFront := some toFront })
    ⟨.reorder, pageNumber, element, none, some toFront⟩ operations

/-- The operations, and the store without them. -/
def drain (operations : List (ElementOperation ε)) :
    List (ElementOperation ε) × List (ElementOperation ε) := (operations, [])

end OperationsStore

end GigaPdf
