import GigaPdf.Editor.SceneGraph

/-!
# Queued deletions

`queueDelete` does not say what kind of element it deletes, and `applyOperations` removes in place
only what says so. A deletion is always a redaction of its box.
-/

namespace GigaPdf

open OperationsStore Positions

section
variable {δ ρ : Type}

/-- What `queueDelete` queues for an element. -/
def deletion (pageNumber : Nat) (element : ElementRecord ρ) (bounds : Bounds) : ElementOp ρ :=
  ⟨.delete, pageNumber, { element.deletion with bounds := some bounds }, some bounds, none⟩

theorem queueDelete_eq (pageNumber : Nat) (element : ElementRecord ρ) (bounds : Bounds)
    (queue : List (ElementOp ρ)) :
    queueDelete pageNumber { element.deletion with bounds := some bounds } bounds queue =
      queue ++ [deletion pageNumber element bounds] := rfl

/-- The operation is a removal of the element under the index, and redacts nothing. Alone in its
queue, it changes nothing else. -/
structure RemovedInPlace (engine : PdfEngine δ ρ) (page : PdfPage δ) (queue : List (ElementOp ρ))
    (op : ElementOp ρ) (index : Nat) : Prop where
  executed : plainOp op.pageNumber index queue.length .remove ∈
    inPlaceOps (routed engine page (queue ++ [op]))
  noRegion : op ∉ fallbacks engine page (queue ++ [op])
  others : queue = [] → ∃ page', applyOperations engine page [op] = some page' ∧
    page'.content = page.content.eraseIdx index

section
variable {engine : PdfEngine δ ρ} {page : PdfPage δ}

theorem mem_routed_append (queue : List (ElementOp ρ)) (op : ElementOp ρ) :
    (op, classify engine page queue.length op) ∈ routed engine page (queue ++ [op]) := by
  apply mem_routed.mpr
  refine ⟨queue.length, ?_, rfl⟩
  rw [List.mem_zipIdx_iff_getElem?]
  simp

theorem routed_singleton (op : ElementOp ρ) :
    routed engine page [op] = [(op, classify engine page 0 op)] := rfl

/-! ## The record of a deletion -/

theorem classify_deletion (originalIndex pageNumber : Nat) (element : ElementRecord ρ)
    (bounds : Bounds) :
    classify engine page originalIndex (deletion pageNumber element bounds) = .fallback := by
  rw [classify, deletion]
  simp only [ElementRecord.deletion]

theorem deletion_mem_fallbacks (pageNumber : Nat) (element : ElementRecord ρ) (bounds : Bounds)
    (queue : List (ElementOp ρ)) :
    deletion pageNumber element bounds ∈
      fallbacks engine page (queue ++ [deletion pageNumber element bounds]) := by
  apply mem_fallbacks.mpr
  have mem := @mem_routed_append _ _ engine page queue (deletion pageNumber element bounds)
  rwa [classify_deletion] at mem

theorem fallbacks_deletion (pageNumber : Nat) (element : ElementRecord ρ) (bounds : Bounds) :
    fallbacks engine page [deletion pageNumber element bounds] =
      [deletion pageNumber element bounds] := by
  rw [fallbacks, fallbackOps, routed_singleton, classify_deletion]
  rfl

/-- What the redaction of the box removes is all that goes. -/
theorem applyOperations_deletion (pageNumber : Nat) (element : ElementRecord ρ)
    (bounds : Bounds) : ∃ page',
    applyOperations engine page [deletion pageNumber element bounds] = some page' ∧
      page'.content = page.content.filter fun d =>
        !(engine.redacts && engine.meets (toPdfBounds page.info bounds) d) := by
  have edited : editedContent engine page [deletion pageNumber element bounds] = page.content := by
    rw [editedContent, routed_singleton, classify_deletion]
    rfl
  have added : addOps [deletion pageNumber element bounds] = [] := rfl
  have kept : keptContent engine page [deletion pageNumber element bounds] =
      page.content.filter fun d =>
        !(engine.redacts && engine.meets (toPdfBounds page.info bounds) d) := by
    rw [keptContent, edited, fallbacks_deletion]
    simp [PdfEngine.redacted, redactionBounds, deletion]
  have drawn : drawnElements engine page [deletion pageNumber element bounds] = [] := by
    rw [drawnElements, fallbacks_deletion, added]
    rfl
  rw [applyOperations, fallbacks_deletion, added, kept, drawn]
  refine ⟨_, if_neg ?_, by simp [drawnContent]⟩
  simp [deletion]

/-! ## The record with its type -/

/-- The engine reports an element of the kind that the record names. -/
def reportsBody (engine : PdfEngine δ ρ) (page : PdfPage δ) (index : Nat) : ElementBody → Bool
  | .text .. => (page.report engine.textRun index).isSome
  | .image .. => (page.report engine.imageInfo index).isSome
  | .shape .. => (page.report engine.vectorPath index).isSome
  | ElementBody.annotation | .formField .. => false

/-- A deletion that names its kind is a removal. -/
theorem classify_typed {op : ElementOp ρ} {body : ElementBody} {index : Nat}
    (originalIndex : Nat) (delete : op.action = .delete) (typed : op.element.body = some body)
    (valid : validRunIndex op.element.index = some index)
    (reported : reportsBody engine page index body = true) :
    classify engine page originalIndex op =
      .inPlace (plainOp op.pageNumber index originalIndex .remove) := by
  cases body with
  | text content style =>
    obtain ⟨run, found⟩ := Option.isSome_iff_exists.mp reported
    simp only [classify, delete, typed, valid, classifyText, found, if_true]
  | image opacity =>
    obtain ⟨image, found⟩ := Option.isSome_iff_exists.mp reported
    simp only [classify, delete, typed, valid, classifyImage, found, if_true]
  | shape style =>
    obtain ⟨path, found⟩ := Option.isSome_iff_exists.mp reported
    simp only [classify, delete, typed, valid, classifyShape, found, if_true]
  | annotation | formField => cases reported

theorem inPlacePage_remove {op : InPlaceOp} (remove : op.kind = .remove) (content : List δ) :
    (engine.inPlacePage content [op]).elements = content.eraseIdx op.index := by
  have stable : ∀ other ∈ [op], other.kind ≠ .reorder := by
    intro other mem
    rw [List.mem_singleton.mp mem, remove]
    simp
  have one : stableOps [op] = [op] := by
    rw [stableOps, List.filter_singleton]
    simp [remove]
  rw [Engine.inPlacePage, reorderOps_eq_nil stable, one, List.foldl_nil, List.foldl_cons,
    List.foldl_nil, stableStep_elements, Engine.edit, if_pos remove, editAt_none]

/-- With its type, a deletion does what it is for. -/
theorem typed_deletion_removed {op : ElementOp ρ} {body : ElementBody} {index : Nat}
    (queue : List (ElementOp ρ)) (delete : op.action = .delete)
    (typed : op.element.body = some body) (valid : validRunIndex op.element.index = some index)
    (reported : reportsBody engine page index body = true) :
    RemovedInPlace engine page queue op index := by
  have classified := fun k => classify_typed k delete typed valid reported
  refine ⟨?_, ?_, ?_⟩
  · apply mem_inPlaceOps.mpr
    refine ⟨op, ?_⟩
    have mem := @mem_routed_append _ _ engine page queue op
    rwa [classified] at mem
  · intro mem
    obtain ⟨k, -, route⟩ := mem_routed.mp (mem_fallbacks.mp mem)
    rw [classified] at route
    cases route
  · intro _
    have nothing : fallbacks engine page [op] = [] := by
      rw [fallbacks, fallbackOps, routed_singleton, classified]
      rfl
    have edits : inPlaceOps (routed engine page [op]) =
        [plainOp op.pageNumber index 0 .remove] := by
      rw [routed_singleton, classified]
      rfl
    have drawn : drawnElements engine page [op] = [] := by
      rw [drawnElements, nothing]
      rfl
    have kept : keptContent engine page [op] = page.content.eraseIdx index := by
      rw [keptContent, nothing, editedContent, edits, inPlacePage_remove rfl]
      simp [PdfEngine.redacted]
    rw [applyOperations, nothing]
    refine ⟨_, rfl, ?_⟩
    simp only [kept, drawn, drawnContent, List.filter_nil, List.map_nil, List.append_nil]

end

/-- **No queued deletion is a removal in place.** Its box is redacted, and it deletes just its
element only if the redaction meets this element and no other. -/
theorem queued_deletion_redacts (engine : PdfEngine δ ρ) (page : PdfPage δ)
    (queue : List (ElementOp ρ)) (pageNumber index : Nat) (element : ElementRecord ρ)
    (bounds : Bounds) :
    ¬RemovedInPlace engine page queue (deletion pageNumber element bounds) index ∧
    (∃ op ∈ fallbacks engine page
      (queueDelete pageNumber { element.deletion with bounds := some bounds } bounds queue),
      redactionBounds op = some bounds) ∧
    ∃ page', applyOperations engine page [deletion pageNumber element bounds] = some page' ∧
      (page'.content = page.content.eraseIdx index ↔
        ∀ k d, page.content[k]? = some d →
          ((engine.redacts && engine.meets (toPdfBounds page.info bounds) d) = true ↔
            k = index)) := by
  have left := @deletion_mem_fallbacks _ _ engine page pageNumber element bounds queue
  obtain ⟨page', applied, content⟩ :=
    @applyOperations_deletion _ _ engine page pageNumber element bounds
  refine ⟨fun removed => removed.noRegion left, ⟨_, left, rfl⟩, page', applied, ?_⟩
  rw [content]
  exact filter_eq_eraseIdx_iff _ _ _

end

/-- Two images that overlap. -/
def overlapping : PdfPage Bounds := ⟨squarePage, [⟨0, 90, 10, 10⟩, ⟨5, 90, 10, 10⟩], []⟩

/-- The deletion of one of two overlapping images erases both, though its index is valid. -/
theorem deletion_erases_neighbour :
    validRunIndex (image "a" 0 (some 0)).index = some 0 ∧
    (applyOperations imagePdf overlapping
      (queueDelete 1 (image "a" 0 (some 0)).deletion ⟨0, 0, 10, 10⟩ [])).map PdfPage.content =
      some [] ∧
    ¬RemovedInPlace imagePdf overlapping [] (deletion 1 (image "a" 0 (some 0)) ⟨0, 0, 10, 10⟩) 0 := by
  have applied : (applyOperations imagePdf overlapping
      (queueDelete 1 (image "a" 0 (some 0)).deletion ⟨0, 0, 10, 10⟩ [])).map PdfPage.content =
      some [] := by
    decide +kernel
  refine ⟨rfl, applied, fun removed => ?_⟩
  obtain ⟨page', applied', content⟩ := removed.others rfl
  have both : (applyOperations imagePdf overlapping
      [deletion 1 (image "a" 0 (some 0)) ⟨0, 0, 10, 10⟩]).map PdfPage.content = some [] := applied
  rw [applied', Option.map_some, content] at both
  cases both

end GigaPdf
