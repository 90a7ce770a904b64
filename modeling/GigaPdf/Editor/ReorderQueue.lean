import GigaPdf.Editor.SceneGraph
import GigaPdf.Lib.Coalescing

/-!
# The queued reorders

The store keeps one reorder for each element of a page: the last one, at the place of the first.
-/

namespace GigaPdf

open HasElementId (elementId)
open Coalescing OperationsStore Reordering Upsert

structure ReorderCall (ε : Type) where
  pageNumber : Nat
  element : ε
  toFront : Bool

section
variable {ε : Type} [HasElementId ε]

def queueReorders (calls : List (ReorderCall ε)) : List (ElementOperation ε) :=
  calls.foldl (fun queue call => queueReorder call.pageNumber call.element call.toFront queue) []

/-- What a queued operation does to the z-order of a page: an element comes last when it is brought
to the front. -/
def reorderMove (pageNumber : Nat) (op : ElementOperation ε) : Option (String × Bool) :=
  if op.action = .reorder ∧ op.pageNumber = pageNumber then
    op.toFront.map fun toFront => (elementId op.element, toFront)
  else none

/-- The z-order of a page after the drained reorders, in queue order. -/
def performDrained (pageNumber : Nat) (operations : List (ElementOperation ε))
    (zOrder : List String) : List String :=
  moveItems (operations.filterMap (reorderMove pageNumber)) zOrder

/-- The moves that were asked for on a page. -/
def calledMoves (pageNumber : Nat) (calls : List (ReorderCall ε)) : List (String × Bool) :=
  (calls.filter fun call => call.pageNumber = pageNumber).map fun call =>
    (elementId call.element, call.toFront)

/-- Every queued operation is a reorder that says where to. -/
theorem queueReorders_reorder {calls : List (ReorderCall ε)} {op : ElementOperation ε}
    (mem : op ∈ queueReorders calls) : op.action = .reorder ∧ op.toFront.isSome = true := by
  induction calls using List.reverseRecOn generalizing op with
  | nil => cases mem
  | append_singleton calls call ih =>
    rw [queueReorders, List.foldl_append] at mem
    obtain old | ⟨existing, found, rfl⟩ | ⟨-, rfl⟩ := mem_upsert mem
    · exact ih old
    · have queued : existing ∈ queueReorders calls := List.mem_of_find?_eq_some found
      exact ⟨(ih queued).1, rfl⟩
    · exact ⟨rfl, rfl⟩

/-- **On each page the queue holds the merged moves of that page.** -/
theorem filterMap_queueReorders (pageNumber : Nat) (calls : List (ReorderCall ε)) :
    (queueReorders calls).filterMap (reorderMove pageNumber) =
      coalesce (calledMoves pageNumber calls) := by
  induction calls using List.reverseRecOn with
  | nil => rfl
  | append_singleton calls call ih =>
    have step : queueReorders (calls ++ [call]) =
        queueReorder call.pageNumber call.element call.toFront (queueReorders calls) := by
      rw [queueReorders, List.foldl_append]
      rfl
    rw [step, queueReorder]
    by_cases here : call.pageNumber = pageNumber
    · have called : calledMoves pageNumber (calls ++ [call]) =
          calledMoves pageNumber calls ++ [(elementId call.element, call.toFront)] := by
        simp [calledMoves, here]
      rw [called, coalesce_append_singleton, ← ih, enqueue]
      apply filterMap_upsert
      · intro op mem
        obtain ⟨reorder, directed⟩ := queueReorders_reorder mem
        obtain ⟨toFront, directed⟩ := Option.isSome_iff_exists.mp directed
        by_cases page : op.pageNumber = pageNumber <;>
          simp [isFor, reorderMove, reorder, directed, page, here]
      · intro op mem queued
        obtain ⟨reorder, directed⟩ := queueReorders_reorder mem
        obtain ⟨toFront, directed⟩ := Option.isSome_iff_exists.mp directed
        simp only [isFor, reorder, here, decide_true, Bool.true_and, Bool.and_eq_true,
          decide_eq_true_eq] at queued
        simp [reorderMove, reorder, queued.1, directed]
      · simp [reorderMove, here]
    · have called : calledMoves pageNumber (calls ++ [call]) = calledMoves pageNumber calls := by
        simp [calledMoves, here]
      rw [called, ← ih]
      apply filterMap_upsert_of_unseen
      · intro op _ queued
        simp only [isFor, Bool.and_eq_true, decide_eq_true_eq] at queued
        have other : op.pageNumber ≠ pageNumber := queued.1.2 ▸ here
        simp [reorderMove, other]
      · simp [reorderMove, here]

/-- **Merging the queued reorders keeps the stacking** just when no two elements of the page that go
to the same end were first called in one order and last called in the other. -/
theorem drained_stacking_iff (calls : List (ReorderCall ε)) (pageNumber : Nat)
    {zOrder : List String} (nodup : zOrder.Nodup) :
    performDrained pageNumber (drain (queueReorders calls)).1 zOrder =
        moveItems (calledMoves pageNumber calls) zOrder ↔
      KeepsOrder (calledMoves pageNumber calls) zOrder := by
  rw [← moveItems_coalesce_iff nodup, performDrained, drain, filterMap_queueReorders]

end

def toFrontCall (elementId : String) : ReorderCall (ElementRecord Unit) :=
  ⟨1, image elementId 0 none, true⟩

/-- Two elements brought to the front, the second one twice. -/
theorem drained_stacking_twice :
    performDrained 1 (drain (queueReorders [toFrontCall "a", toFrontCall "b", toFrontCall "b"])).1
        ["a", "b", "c"] =
      ["c", "a", "b"] :=
  (drained_stacking_iff _ 1 (by decide)).mpr (by decide)

/-- The first element is brought to the front once more, and stays behind the second. -/
theorem drained_stacking_differs :
    performDrained 1 (drain (queueReorders [toFrontCall "a", toFrontCall "b", toFrontCall "a"])).1
        ["a", "b"] = ["a", "b"] ∧
      moveItems (calledMoves 1 [toFrontCall "a", toFrontCall "b", toFrontCall "a"]) ["a", "b"] =
        ["b", "a"] := by
  decide

end GigaPdf
