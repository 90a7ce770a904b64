import GigaPdf.Editor.SceneGraph
import GigaPdf.Lib.LastWriter
import Mathlib.Algebra.Order.Field.Rat
import Mathlib.Algebra.Order.Group.Abs

/-!
# Merging what the backend holds

`mergeBackendElements` of `apps/web/src/hooks/use-document.ts`. An element that a user adds is kept
at once in the backend and only later in the file, so a page that is loaded is read from both. What
was saved to the file in the meantime comes back from the parser under another id, and is told from
an element of its own by its looks.
-/

namespace GigaPdf.BackendMerge

open LastWriter

structure Element where
  elementId : String
  type : ElementType
  /-- Of texts and annotations. -/
  content : Option String
  bounds : Bounds
deriving DecidableEq

def dedupBoundsTolerancePx : ℚ := 2

def boundsApproxEqual (a b : Bounds) : Bool :=
  decide (|a.x - b.x| ≤ dedupBoundsTolerancePx) && decide (|a.y - b.y| ≤ dedupBoundsTolerancePx) &&
    decide (|a.width - b.width| ≤ dedupBoundsTolerancePx) &&
    decide (|a.height - b.height| ≤ dedupBoundsTolerancePx)

def elementContent (el : Element) : String :=
  match el.type with
  | .text | ElementType.annotation => el.content.getD ""
  | _ => ""

/-- Whether an element of the backend looks like a parsed one. -/
def looksBaked (s el : Element) : Bool :=
  decide (s.type = el.type) && decide (elementContent s = elementContent el) &&
    boundsApproxEqual s.bounds el.bounds

def mergeBackendElements (parsedElements backendElements : List Element) : List Element :=
  let byId := setAll Element.elementId (setAll Element.elementId [] parsedElements) backendElements
  byId.filter fun el =>
    backendElements.any (fun s => s.elementId = el.elementId) ||
      !backendElements.any (fun s => looksBaked s el)

variable {parsedElements backendElements : List Element}

theorem nodup_setAll_parsed :
    ((setAll Element.elementId [] parsedElements).map Element.elementId).Nodup :=
  nodup_setAll (show (([] : List Element).map Element.elementId).Nodup from List.nodup_nil)

theorem nodup_merge :
    ((mergeBackendElements parsedElements backendElements).map Element.elementId).Nodup := by
  exact List.Nodup.sublist (List.filter_sublist.map _) (nodup_setAll nodup_setAll_parsed)

theorem mem_merge {el : Element} :
    el ∈ mergeBackendElements parsedElements backendElements ↔
      lastOf Element.elementId backendElements el.elementId = some el ∨
        (lastOf Element.elementId parsedElements el.elementId = some el ∧
          el.elementId ∉ backendElements.map Element.elementId ∧
          ∀ s ∈ backendElements, looksBaked s el = false) := by
  have empty : (([] : List Element).map Element.elementId).Nodup := List.nodup_nil
  rw [mergeBackendElements, List.mem_filter, mem_setAll nodup_setAll_parsed, mem_setAll empty]
  simp only [List.not_mem_nil, false_and, or_false, Bool.or_eq_true, List.any_eq_true,
    Bool.not_eq_true', List.any_eq_false, decide_eq_true_eq, Bool.not_eq_true]
  constructor
  · rintro ⟨last | ⟨last, absent⟩, kept⟩
    · exact .inl last
    · refine .inr ⟨last, absent, ?_⟩
      obtain ⟨s, mem, same⟩ | apart := kept
      · exact absurd (List.mem_map.mpr ⟨s, mem, same⟩) absent
      · exact apart
  · rintro (last | ⟨last, absent, apart⟩)
    · exact ⟨.inl last, .inl ⟨el, mem_of_lastOf last, rfl⟩⟩
    · exact ⟨.inr ⟨last, absent⟩, .inr apart⟩

/-- Every id is there once; an element of the backend is kept as it was set last, and a parsed one
unless the backend has its id or something that looks like it. -/
theorem mergeBackendElements_spec (parsedElements backendElements : List Element) :
    ((mergeBackendElements parsedElements backendElements).map Element.elementId).Nodup ∧
      ∀ el, el ∈ mergeBackendElements parsedElements backendElements ↔
        lastOf Element.elementId backendElements el.elementId = some el ∨
          (lastOf Element.elementId parsedElements el.elementId = some el ∧
            el.elementId ∉ backendElements.map Element.elementId ∧
            ∀ s ∈ backendElements, looksBaked s el = false) :=
  ⟨nodup_merge, fun _ => mem_merge⟩

/-- Merging what was merged already changes nothing. -/
theorem merge_merge (parsedElements backendElements : List Element) :
    mergeBackendElements (mergeBackendElements parsedElements backendElements) backendElements =
      mergeBackendElements parsedElements backendElements := by
  have holds : ∀ s ∈ backendElements, ∀ el, lastOf Element.elementId backendElements s.elementId =
      some el → el ∈ mergeBackendElements parsedElements backendElements := by
    intro s _ el last
    rw [← key_of_lastOf last] at last
    exact mem_merge.mpr (.inl last)
  have same := setAll_eq_self nodup_merge holds
  conv_lhs => rw [mergeBackendElements, setAll_nil nodup_merge, same]
  exact List.filter_eq_self.mpr fun el mem => (List.mem_filter.mp mem).2

end GigaPdf.BackendMerge
