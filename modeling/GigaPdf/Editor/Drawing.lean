import GigaPdf.Editor.Indices

/-!
# What a bake draws

A bake is to draw the scene graph: every element once and in its last state, and nothing else. The
edits in place come before all redactions and these before everything that is drawn, so that an
element is drawn as often as the queue has it drawn, and is removed if any redacted box meets it.
-/

namespace GigaPdf

open OperationsStore Positions

section
variable {δ ρ : Type}

/-! ## Filled fields -/

/-- The widgets as the setters leave them. -/
def PdfEngine.filled (engine : PdfEngine δ ρ) (values : List (String × FieldValue))
    (annots : List δ) (d : δ) : δ :=
  match (engine.fieldName d).bind fun name => values.find? fun v => v.1 = name with
  | some v => if engine.accepts v.2 (engine.widgets v.1 annots) then engine.setValue v.2 d else d
  | none => d

/-- A setter keeps the names of the fields. -/
def PdfEngine.KeepsNames (engine : PdfEngine δ ρ) : Prop :=
  ∀ value d, engine.fieldName (engine.setValue value d) = engine.fieldName d

theorem fillValues_distinct (fills : List (FormFillOp ρ)) :
    ((fillValues fills).map Prod.fst).Nodup := by
  have all : ∀ (fills : List (FormFillOp ρ)) (values : List (String × FieldValue)),
      (values.map Prod.fst).Nodup →
      ((fills.foldl (fun values fill =>
        Upsert.upsert (fun v => v.1 = fill.fieldName) (fun _ => (fill.fieldName, fill.value))
          (fill.fieldName, fill.value) values) values).map Prod.fst).Nodup := by
    intro fills
    induction fills with
    | nil => exact fun _ distinct => distinct
    | cons fill fills ih =>
      intro values distinct
      apply ih
      apply Upsert.nodup_map_upsert distinct
      · intro v named
        exact (of_decide_eq_true named).symm
      · intro v _ other
        exact of_decide_eq_false other
  exact all fills [] List.nodup_nil

section
variable {engine : PdfEngine δ ρ}

theorem filled_cons_of_eq {v : String × FieldValue} {values : List (String × FieldValue)}
    {annots : List δ} {d : δ} (here : engine.fieldName d = some v.1) :
    engine.filled (v :: values) annots d =
      if engine.accepts v.2 (engine.widgets v.1 annots) then engine.setValue v.2 d else d := by
  simp [PdfEngine.filled, here]

theorem filled_cons_of_ne {v : String × FieldValue} {values : List (String × FieldValue)}
    {annots : List δ} {d : δ} (other : engine.fieldName d ≠ some v.1) :
    engine.filled (v :: values) annots d = engine.filled values annots d := by
  rw [PdfEngine.filled, PdfEngine.filled]
  cases name : engine.fieldName d with
  | none => rfl
  | some name' =>
    have skipped : v.1 ≠ name' := by
      rintro rfl
      exact other name
    simp [skipped]

theorem filled_of_absent {values : List (String × FieldValue)} {annots : List δ} {d : δ}
    {name : String} (here : engine.fieldName d = some name) (absent : name ∉ values.map Prod.fst) :
    engine.filled values annots d = d := by
  have none_here : values.find? (fun v => v.1 = name) = none := by
    rw [List.find?_eq_none]
    intro v mem named
    exact absent (List.mem_map.mpr ⟨v, mem, of_decide_eq_true named⟩)
  simp [PdfEngine.filled, here, none_here]

/-- What one setter does to a widget. -/
def PdfEngine.setWidget (engine : PdfEngine δ ρ) (v : String × FieldValue) (d : δ) : δ :=
  if engine.fieldName d = some v.1 then engine.setValue v.2 d else d

theorem fieldName_setWidget (keeps : engine.KeepsNames) (v : String × FieldValue) (d : δ) :
    engine.fieldName (engine.setWidget v d) = engine.fieldName d := by
  rw [PdfEngine.setWidget]
  split
  · exact keeps _ _
  · rfl

theorem names_setWidget (keeps : engine.KeepsNames) (v : String × FieldValue) (annots : List δ) :
    (annots.map (engine.setWidget v)).filterMap engine.fieldName =
      annots.filterMap engine.fieldName := by
  rw [List.filterMap_map]
  congr 1
  funext d
  exact fieldName_setWidget keeps v d

/-- The widgets of the other fields stay as they are. -/
theorem widgets_setWidget (keeps : engine.KeepsNames) {v : String × FieldValue} {name : String}
    (other : name ≠ v.1) (annots : List δ) :
    engine.widgets name (annots.map (engine.setWidget v)) = engine.widgets name annots := by
  induction annots with
  | nil => rfl
  | cons d annots ih =>
    have named := fieldName_setWidget keeps v d
    rw [PdfEngine.widgets, PdfEngine.widgets] at *
    rw [List.map_cons, List.filter_cons, List.filter_cons, named, ih]
    by_cases here : engine.fieldName d = some name
    · have same : engine.setWidget v d = d := by
        rw [PdfEngine.setWidget, here, if_neg fun h => other (Option.some.inj h)]
      rw [same]
    · simp only [here, decide_false, Bool.false_eq_true, if_false]

/-- The setters of the other fields do to a widget what they do without this one. -/
theorem filled_setWidget (keeps : engine.KeepsNames) {v : String × FieldValue}
    {values : List (String × FieldValue)} (absent : v.1 ∉ values.map Prod.fst) (annots : List δ)
    (d : δ) :
    engine.filled values (annots.map (engine.setWidget v)) d = engine.filled values annots d := by
  rw [PdfEngine.filled, PdfEngine.filled]
  cases found : (engine.fieldName d).bind fun name => values.find? fun v => v.1 = name with
  | none => rfl
  | some v' =>
    obtain ⟨name, -, named⟩ := Option.bind_eq_some_iff.mp found
    have other : v'.1 ≠ v.1 := by
      intro same
      rw [← same] at absent
      exact absent (List.mem_map_of_mem (List.mem_of_find?_eq_some named))
    simp only [widgets_setWidget keeps other]

/-- **The setters fill field by field.** A widget takes the value of its field if the field does. -/
theorem fillFields_eq_map (keeps : engine.KeepsNames) {values : List (String × FieldValue)}
    (distinct : (values.map Prod.fst).Nodup) (annots : List δ) :
    (engine.fillFields values annots).1 = annots.map (engine.filled values annots) := by
  have all : ∀ (values : List (String × FieldValue)), (values.map Prod.fst).Nodup →
      ∀ (annots : List δ) (failed : List String),
      (values.foldl (engine.fillStep (annots.filterMap engine.fieldName)) (annots, failed)).1 =
        annots.map (engine.filled values annots) := by
    intro values
    induction values with
    | nil =>
      intro _ annots failed
      have same : engine.filled [] annots = id := by
        funext d
        rw [PdfEngine.filled]
        cases engine.fieldName d <;> rfl
      rw [same, List.map_id]
      rfl
    | cons v values ih =>
      intro distinct annots failed
      obtain ⟨absent, distinct⟩ := List.nodup_cons.mp distinct
      rw [List.foldl_cons, PdfEngine.fillStep, PdfEngine.fillField]
      by_cases takes : v.1 ∈ annots.filterMap engine.fieldName ∧
          engine.accepts v.2 (engine.widgets v.1 annots) = true
      · have later := ih distinct (annots.map (engine.setWidget v)) failed
        rw [names_setWidget keeps, List.map_map] at later
        rw [if_pos takes]
        refine later.trans (List.map_congr_left fun d _ => ?_)
        simp only [Function.comp, filled_setWidget keeps absent]
        by_cases here : engine.fieldName d = some v.1
        · have set : engine.setWidget v d = engine.setValue v.2 d := if_pos here
          have named : engine.fieldName (engine.setValue v.2 d) = some v.1 :=
            (keeps _ _).trans here
          rw [set, filled_of_absent named absent, filled_cons_of_eq here, if_pos takes.2]
        · have same : engine.setWidget v d = d := if_neg here
          rw [same, filled_cons_of_ne here]
      · rw [if_neg takes]
        refine (ih distinct annots _).trans (List.map_congr_left fun d mem => ?_)
        by_cases here : engine.fieldName d = some v.1
        · have known : v.1 ∈ annots.filterMap engine.fieldName :=
            List.mem_filterMap.mpr ⟨d, mem, here⟩
          rw [filled_of_absent here absent, filled_cons_of_eq here,
            if_neg fun accepted => takes ⟨known, accepted⟩]
        · rw [filled_cons_of_ne here]
  exact all values distinct annots []

end

/-- What is drawn is drawn by the renderer, and carries the id of its element. -/
theorem mem_draws_tagged {engine : PdfEngine δ ρ} {elements : List (ElementRecord ρ)}
    {d : ElementRecord ρ × (δ × String)} (mem : d ∈ engine.tagged.draws elements) :
    engine.render d.1 = .changed d.2.1 ∧ d.2.2 = d.1.elementId := by
  rw [draws_tagged] at mem
  obtain ⟨⟨e, x⟩, drawn, rfl⟩ := List.mem_map.mp mem
  obtain ⟨e', -, rendered⟩ := List.mem_filterMap.mp drawn
  split at rendered
  · cases rendered
    exact ⟨‹_›, rfl⟩
  · cases rendered

theorem draws_ids (engine : PdfEngine δ ρ) (elements : List (ElementRecord ρ))
    (keep : ElementRecord ρ → Bool) :
    (((engine.tagged.draws elements).filter fun d => keep d.1).map Prod.snd).map Prod.snd =
      ((engine.tagged.draws elements).filter fun d => keep d.1).map fun d => d.1.elementId := by
  rw [List.map_map]
  apply List.map_congr_left
  intro d mem
  exact (mem_draws_tagged (List.mem_filter.mp mem).1).2

namespace EditorPage

/-! ## The operations of the editor -/

/-- There are no reorders, a deletion does not say what it deletes, and an update has the box that
the element had. -/
structure EditorOp (op : ElementOp ρ) : Prop where
  stable : op.action ≠ .reorder
  untyped : op.action = .delete → op.element.body = none
  bounded : op.action = .update → op.oldBounds.isSome = true

theorem inPlaceOps_kinds {engine : PdfEngine δ ρ} {page : PdfPage δ} {ops : List (ElementOp ρ)}
    (queued : ∀ op ∈ ops, EditorOp op) {edit : InPlaceOp}
    (mem : edit ∈ inPlaceOps (routed engine page ops)) :
    edit.kind ≠ .reorder ∧ edit.kind ≠ .remove := by
  obtain ⟨op, routes⟩ := mem_inPlaceOps.mp mem
  obtain ⟨k, -, inPlace⟩ := mem_routed.mp routes
  have edits := classify_inPlace inPlace
  have editor := queued op (mem_of_routed routes)
  constructor
  · intro kind
    exact editor.stable (edits.reorder kind)
  · intro kind
    obtain ⟨deletes, typed⟩ := edits.removal kind
    rw [editor.untyped deletes] at typed
    cases typed

section
variable (engine : PdfEngine δ ρ) (σ : EditorPage δ ρ)

/-- A part of the content after the edits in place that name its index. -/
def editedPart (k : Nat) (x : δ × String) : δ × String :=
  changes (engine.tagged.editsOf (inPlaceOps (routed engine.tagged σ.page σ.queue)) k) x

theorem edited_eq (queued : ∀ op ∈ σ.queue, EditorOp op) :
    σ.edited engine = σ.page.content.mapIdx (σ.editedPart engine) :=
  inPlacePage_changes engine.tagged.toEngine σ.page.content
    (fun _ mem => (inPlaceOps_kinds queued mem).1)
    fun _ mem => (inPlaceOps_kinds queued mem).2

theorem edited_ids (queued : ∀ op ∈ σ.queue, EditorOp op) :
    (σ.edited engine).map Prod.snd = σ.page.content.map Prod.snd :=
  inPlacePage_tags engine.toEngine σ.page.content
    (fun _ mem => (inPlaceOps_kinds queued mem).1)
    fun _ mem => (inPlaceOps_kinds queued mem).2

theorem mem_edited (queued : ∀ op ∈ σ.queue, EditorOp op) {y : δ × String} :
    y ∈ σ.edited engine ↔ ∃ k x, σ.page.content[k]? = some x ∧ σ.editedPart engine k x = y := by
  rw [edited_eq engine σ queued, List.mem_iff_getElem?]
  simp only [List.getElem?_mapIdx, Option.map_eq_some_iff]

theorem editedPart_id (queued : ∀ op ∈ σ.queue, EditorOp op) {k : Nat} {x : δ × String}
    (here : σ.page.content[k]? = some x) : (σ.editedPart engine k x).2 = x.2 := by
  have ids := congrArg (fun ids => ids[k]?) (edited_ids engine σ queued)
  simp only [edited_eq engine σ queued, List.getElem?_map, List.getElem?_mapIdx, here,
    Option.map_some] at ids
  exact Option.some.inj ids

/-- An annotation or a form field after the fields are filled. -/
def filledPart (x : δ × String) : δ × String :=
  engine.tagged.filled (fillValues (fills engine.tagged σ.page σ.queue))
    (σ.page.annots ++ drawnAnnots (drawnElements engine.tagged σ.page σ.queue)) x

theorem filledPart_id (x : δ × String) : (σ.filledPart engine x).2 = x.2 := by
  rw [filledPart, PdfEngine.filled]
  split
  · split <;> rfl
  · rfl

theorem filledAnnots_eq (keeps : engine.KeepsNames) :
    (filledAnnots engine.tagged σ.page σ.queue).1 =
      (σ.page.annots ++ drawnAnnots (drawnElements engine.tagged σ.page σ.queue)).map
        (σ.filledPart engine) := by
  have keeps' : engine.tagged.KeepsNames := fun value d => keeps value d.1
  exact fillFields_eq_map keeps' (fillValues_distinct _) _

/-- Everything that the bake draws, with the record that it is drawn from. -/
def drawings : List (ElementRecord ρ × (δ × String)) :=
  drawnElements engine.tagged σ.page σ.queue ++ materialisedFields engine.tagged σ.page σ.queue

/-- The ids of what the bake draws. -/
def drawingIds : List String := (σ.drawings engine).map fun d => d.1.elementId

/-- Where the add pass draws an element, as the setters leave it. -/
def drawnPart (d : ElementRecord ρ × (δ × String)) : δ × String :=
  if d.1.inContent then d.2 else σ.filledPart engine d.2

variable {engine σ}

theorem bake_annots {σ' : EditorPage δ ρ} (keeps : engine.KeepsNames)
    (h : σ.bake engine = some σ') :
    σ'.page.annots =
      (σ.page.annots ++ drawnAnnots (drawnElements engine.tagged σ.page σ.queue)).map
          (σ.filledPart engine) ++
        (materialisedFields engine.tagged σ.page σ.queue).map Prod.snd := by
  obtain ⟨page, applied, rfl⟩ := Option.map_eq_some_iff.mp h
  rw [← filledAnnots_eq engine σ keeps]
  exact (applyOperations_spec applied).2

/-- The ids on the baked page are those of what stays, of the annotations and of the drawings. -/
theorem bake_ids {σ' : EditorPage δ ρ} (keeps : engine.KeepsNames) (h : σ.bake engine = some σ') :
    (drawnIds σ'.page).Perm
      ((((σ.edited engine).filter (σ.stays engine)).map Prod.snd ++ σ.page.annots.map Prod.snd) ++
        σ.drawingIds engine) := by
  have split : ((drawnElements engine.tagged σ.page σ.queue).filter (fun d => d.1.inContent) ++
      (drawnElements engine.tagged σ.page σ.queue).filter fun d => !d.1.inContent).Perm
      (drawnElements engine.tagged σ.page σ.queue) := List.filter_append_perm _ _
  have apart := split.map fun d => d.1.elementId
  rw [List.map_append] at apart
  have all : σ.drawingIds engine =
      (drawnElements engine.tagged σ.page σ.queue).map (fun d => d.1.elementId) ++
        (materialisedFields engine.tagged σ.page σ.queue).map fun d => d.1.elementId :=
    List.map_append
  have content : (σ.drawn engine).map Prod.snd =
      ((drawnElements engine.tagged σ.page σ.queue).filter fun d => d.1.inContent).map
        fun d => d.1.elementId := draws_ids engine _ ElementRecord.inContent
  have drawn_annots : (drawnAnnots (drawnElements engine.tagged σ.page σ.queue)).map Prod.snd =
      ((drawnElements engine.tagged σ.page σ.queue).filter fun d => !d.1.inContent).map
        fun d => d.1.elementId := draws_ids engine _ fun e => !e.inContent
  have filled : ((σ.page.annots ++ drawnAnnots (drawnElements engine.tagged σ.page σ.queue)).map
      (σ.filledPart engine)).map Prod.snd =
      σ.page.annots.map Prod.snd ++
        ((drawnElements engine.tagged σ.page σ.queue).filter fun d => !d.1.inContent).map
          fun d => d.1.elementId := by
    rw [← drawn_annots, ← List.map_append, List.map_map]
    apply List.map_congr_left
    intro x _
    exact filledPart_id engine σ x
  have materialised : ((materialisedFields engine.tagged σ.page σ.queue).map Prod.snd).map
      Prod.snd =
      (materialisedFields engine.tagged σ.page σ.queue).map fun d => d.1.elementId := by
    rw [List.map_map]
    apply List.map_congr_left
    intro d mem
    exact (mem_draws_tagged mem).2
  rw [drawnIds, bake_content h, bake_annots keeps h, List.map_append, List.map_append, content,
    filled, materialised, all]
  have swap : ∀ {a b c d e : List String}, ((a ++ b) ++ ((c ++ d) ++ e)).Perm
      ((a ++ c) ++ ((b ++ d) ++ e)) := by
    intro a b c d e
    rw [List.append_assoc, List.append_assoc a, List.append_assoc c, List.append_assoc b]
    apply List.Perm.append_left
    rw [← List.append_assoc, ← List.append_assoc c]
    exact List.perm_append_comm.append_right _
  exact swap.trans ((apart.append_right _).append_left _)

end

/-! ## Editing -/

/-- The steps between two bakes. -/
def editing (_ : EditorPage δ ρ) : EditorAction ρ → Prop
  | .bake => False
  | .add _ | .modify _ _ | .remove _ => True

instance (σ : EditorPage δ ρ) : ∀ a, Decidable (editing σ a)
  | .bake => .isFalse id
  | .add _ | .modify _ _ | .remove _ => .isTrue trivial

/-- What holds while the user edits. -/
structure Edits (page : PdfPage (δ × String)) (σ : EditorPage δ ρ) : Prop where
  page : σ.page = page
  unique : σ.sceneIds.Nodup
  queued : ∀ op ∈ σ.queue, EditorOp op

theorem updateElement_ids (element : ElementRecord ρ) (scene : List (ElementRecord ρ)) :
    (updateElement element scene).map ElementRecord.elementId =
      scene.map ElementRecord.elementId := by
  rw [updateElement, List.map_map]
  apply List.map_congr_left
  intro e _
  simp only [Function.comp]
  split
  · exact Eq.symm ‹_›
  · rfl

theorem syncSiblings_ids (element : ElementRecord ρ) (scene : List (ElementRecord ρ)) :
    (syncSiblings element scene).map ElementRecord.elementId =
      scene.map ElementRecord.elementId := by
  rw [syncSiblings]
  split
  · split
    · rfl
    · rw [List.map_map]
      apply List.map_congr_left
      intro e _
      simp only [Function.comp]
      split
      · split <;> rfl
      · rfl
  · rfl

theorem Edits.step {engine : PdfEngine δ ρ} {pageNumber : Nat} {page : PdfPage (δ × String)}
    {σ σ' : EditorPage δ ρ} {a : EditorAction ρ} (edits : Edits page σ) (edit : editing σ a)
    (h : σ.step engine pageNumber a = some σ') : Edits page σ' := by
  cases a with
  | add element =>
    obtain ⟨⟨-, -, fresh, -⟩, h⟩ := Option.ite_none_right_eq_some.mp h
    cases h
    refine ⟨edits.page, ?_, fun op mem => ?_⟩
    · have ids : (σ.scene ++ [element]).map ElementRecord.elementId =
          σ.sceneIds ++ [element.elementId] := List.map_append
      rw [sceneIds, ids, List.nodup_append]
      refine ⟨edits.unique, List.nodup_singleton _, ?_⟩
      rintro id mem _ new rfl
      rw [List.mem_singleton.mp new] at mem
      exact fresh mem
    · obtain old | new := List.mem_append.mp mem
      · exact edits.queued op old
      · rw [List.mem_singleton.mp new]
        exact ⟨by simp, by simp, by simp⟩
  | modify element oldBounds =>
    obtain ⟨-, h⟩ := Option.ite_none_right_eq_some.mp h
    obtain ⟨bounds, -, rfl⟩ := Option.map_eq_some_iff.mp h
    refine ⟨edits.page, ?_, fun op mem => ?_⟩
    · rw [sceneIds, syncSiblings_ids, updateElement_ids]
      exact edits.unique
    · obtain old | ⟨existing, found, rfl⟩ | ⟨-, rfl⟩ := Upsert.mem_upsert mem
      · exact edits.queued op old
      · have joins := List.find?_some found
        simp only [isFor, Bool.and_eq_true, decide_eq_true_eq] at joins
        have before := edits.queued existing (List.mem_of_find?_eq_some found)
        have update : existing.action = .update := joins.1.1
        exact ⟨before.stable, by simp [update], before.bounded⟩
      · exact ⟨by simp, by simp, by simp⟩
  | remove elementId =>
    obtain ⟨removed, -, h⟩ := Option.bind_eq_some_iff.mp h
    obtain ⟨bounds, -, rfl⟩ := Option.map_eq_some_iff.mp h
    refine ⟨edits.page, ?_, fun op mem => ?_⟩
    · exact (List.filter_sublist.map ElementRecord.elementId).nodup edits.unique
    · obtain old | new := List.mem_append.mp mem
      · exact edits.queued op old
      · rw [List.mem_singleton.mp new]
        exact ⟨by simp, fun _ => rfl, by simp⟩
  | bake => exact absurd edit id

/-! ## The scene graph is drawn -/

/-- `shows d e` tells that a part `d` of a page is what the element `e` looks like. The page holds
every element once and in its state, and nothing else. -/
structure DrawsScene (shows : δ → ElementRecord ρ → Prop) (page : PdfPage (δ × String))
    (scene : List (ElementRecord ρ)) : Prop where
  once : (drawnIds page).Perm (scene.map ElementRecord.elementId)
  shown : ∀ x ∈ page.content ++ page.annots, ∀ e ∈ scene, e.elementId = x.2 → shows x.1 e

/-- A page whose scene graph has just been parsed. -/
structure Parsed (shows : δ → ElementRecord ρ → Prop) (σ : EditorPage δ ρ) : Prop where
  saved : σ.queue = []
  unique : σ.sceneIds.Nodup
  draws : DrawsScene shows σ.page σ.scene

section
variable (engine : PdfEngine δ ρ) (shows : δ → ElementRecord ρ → Prop)
  (parsed : List (ElementRecord ρ)) (σ : EditorPage δ ρ)

/-- No element is drawn twice and none that is deleted is drawn; the redacted boxes meet the deleted
elements and those that are drawn anew, and no others; no annotation and no form field is deleted or
drawn anew; every new element is drawn. -/
structure DrawsOnce : Prop where
  twice : (σ.drawingIds engine).Nodup
  deleted : ∀ id ∈ σ.drawingIds engine, id ∈ σ.sceneIds
  redacted : ∀ k x, σ.page.content[k]? = some x →
    (σ.stays engine (σ.editedPart engine k x) = true ↔
      x.2 ∈ σ.sceneIds ∧ x.2 ∉ σ.drawingIds engine)
  annots : ∀ x ∈ σ.page.annots, x.2 ∈ σ.sceneIds ∧ x.2 ∉ σ.drawingIds engine
  added : ∀ id ∈ σ.sceneIds, id ∉ drawnIds σ.page → id ∈ σ.drawingIds engine

/-- What is edited in place, filled, or drawn from an earlier state shows the last state, and so does
what is left as it is though the element has changed. -/
structure ShowsLast : Prop where
  edited : ∀ k x, σ.page.content[k]? = some x → x.2 ∉ σ.drawingIds engine →
    ∀ e ∈ σ.scene, e.elementId = x.2 → σ.editedPart engine k x ≠ x ∨ e ∉ parsed →
      shows (σ.editedPart engine k x).1 e
  filled : ∀ x ∈ σ.page.annots, ∀ e ∈ σ.scene, e.elementId = x.2 →
    σ.filledPart engine x ≠ x ∨ e ∉ parsed → shows (σ.filledPart engine x).1 e
  drawn : ∀ d ∈ drawnElements engine.tagged σ.page σ.queue, ∀ e ∈ σ.scene,
    e.elementId = d.1.elementId → σ.drawnPart engine d ≠ d.2 ∨ d.1 ≠ e →
      shows (σ.drawnPart engine d).1 e
  materialised : ∀ d ∈ materialisedFields engine.tagged σ.page σ.queue, ∀ e ∈ σ.scene,
    e.elementId = d.1.elementId → d.1 ≠ e → shows d.2.1 e

/-- No renderer raises, and what is drawn is the scene graph. -/
structure BakesScene : Prop where
  rendered : ∀ e ∈ addOps (fallbacks engine.tagged σ.page σ.queue),
    (engine.render e).isRaised = false
  once : σ.DrawsOnce engine
  last : σ.ShowsLast engine shows parsed

end

section
variable {engine : PdfEngine δ ρ} {shows : δ → ElementRecord ρ → Prop} {σ σ₀ σ' : EditorPage δ ρ}

theorem bake_scene (h : σ.bake engine = some σ') : σ'.scene = σ.scene := by
  obtain ⟨page, -, rfl⟩ := Option.map_eq_some_iff.mp h
  rfl

theorem exists_bake_iff (queued : ∀ op ∈ σ.queue, EditorOp op) :
    (∃ σ', σ.bake engine = some σ') ↔
      ∀ e ∈ addOps (fallbacks engine.tagged σ.page σ.queue), (engine.render e).isRaised = false := by
  have bounded : (fallbacks engine.tagged σ.page σ.queue).any
      (fun op => op.action = .update && op.oldBounds.isNone) = false := by
    rw [List.any_eq_false]
    intro op mem
    have bounds := (queued op (mem_of_routed (mem_fallbacks.mp mem))).bounded
    cases box : op.oldBounds with
    | none =>
      rw [box] at bounds
      simpa using bounds
    | some _ => simp
  have raised : (addOps (fallbacks engine.tagged σ.page σ.queue)).any
      (fun e => (engine.tagged.render e).isRaised) = false ↔
      ∀ e ∈ addOps (fallbacks engine.tagged σ.page σ.queue), (engine.render e).isRaised = false := by
    simp only [List.any_eq_false, render_tagged_isRaised, Bool.not_eq_true]
  rw [← raised]
  simp only [bake, applyOperations, bounded, Bool.false_eq_true, if_false]
  split
  · rename_i raises
    simp [raises]
  · rename_i renders
    simpa using renders

theorem once_iff (keeps : engine.KeepsNames) (queued : ∀ op ∈ σ.queue, EditorOp op)
    (distinct : (drawnIds σ.page).Nodup) (unique : σ.sceneIds.Nodup)
    (h : σ.bake engine = some σ') :
    (drawnIds σ'.page).Perm σ.sceneIds ↔ σ.DrawsOnce engine := by
  have distinct' : ((σ.edited engine).map Prod.snd ++ σ.page.annots.map Prod.snd).Nodup := by
    rw [edited_ids engine σ queued]
    exact distinct
  rw [(bake_ids keeps h).congr_left, filter_append_perm_iff distinct' unique,
    edited_ids engine σ queued]
  constructor
  · rintro ⟨twice, deleted, redacted, annots, added⟩
    refine ⟨twice, deleted, fun k x here => ?_, fun x mem => ?_, added⟩
    · rw [← editedPart_id engine σ queued here]
      exact redacted _ ((mem_edited engine σ queued).mpr ⟨k, x, here, rfl⟩)
    · exact annots _ (List.mem_map_of_mem mem)
  · rintro ⟨twice, deleted, redacted, annots, added⟩
    refine ⟨twice, deleted, fun y mem => ?_, fun id mem => ?_, added⟩
    · obtain ⟨k, x, here, rfl⟩ := (mem_edited engine σ queued).mp mem
      rw [editedPart_id engine σ queued here]
      exact redacted k x here
    · obtain ⟨x, on_page, rfl⟩ := List.mem_map.mp mem
      exact annots x on_page

theorem mem_drawnParts {y : δ × String} :
    y ∈ σ.drawn engine ∨
        y ∈ (drawnAnnots (drawnElements engine.tagged σ.page σ.queue)).map (σ.filledPart engine) ↔
      ∃ d ∈ drawnElements engine.tagged σ.page σ.queue, σ.drawnPart engine d = y := by
  constructor
  · rintro (mem | mem)
    · obtain ⟨d, mem', rfl⟩ := List.mem_map.mp mem
      obtain ⟨drawn, inContent⟩ := List.mem_filter.mp mem'
      exact ⟨d, drawn, if_pos inContent⟩
    · obtain ⟨z, mem', rfl⟩ := List.mem_map.mp mem
      obtain ⟨d, mem'', rfl⟩ := List.mem_map.mp mem'
      obtain ⟨drawn, outside⟩ := List.mem_filter.mp mem''
      exact ⟨d, drawn, if_neg (by simpa using outside)⟩
  · rintro ⟨d, drawn, rfl⟩
    rw [drawnPart]
    split
    · rename_i inContent
      exact .inl (List.mem_map_of_mem (List.mem_filter.mpr ⟨drawn, inContent⟩))
    · rename_i outside
      have there : d ∈ (drawnElements engine.tagged σ.page σ.queue).filter
          fun d => !d.1.inContent := List.mem_filter.mpr ⟨drawn, by simp [outside]⟩
      exact .inr (List.mem_map_of_mem (List.mem_map_of_mem there))

/-- The parts of the baked page: what is edited and stays, what is filled, and what is drawn. -/
theorem mem_baked (keeps : engine.KeepsNames) (queued : ∀ op ∈ σ.queue, EditorOp op)
    (h : σ.bake engine = some σ') {y : δ × String} :
    y ∈ σ'.page.content ++ σ'.page.annots ↔
      (∃ k x, σ.page.content[k]? = some x ∧ σ.stays engine (σ.editedPart engine k x) = true ∧
        σ.editedPart engine k x = y) ∨
      (∃ x ∈ σ.page.annots, σ.filledPart engine x = y) ∨
      (∃ d ∈ drawnElements engine.tagged σ.page σ.queue, σ.drawnPart engine d = y) ∨
      ∃ d ∈ materialisedFields engine.tagged σ.page σ.queue, d.2 = y := by
  have kept : y ∈ (σ.edited engine).filter (σ.stays engine) ↔
      ∃ k x, σ.page.content[k]? = some x ∧ σ.stays engine (σ.editedPart engine k x) = true ∧
        σ.editedPart engine k x = y := by
    rw [List.mem_filter, mem_edited engine σ queued]
    constructor
    · rintro ⟨⟨k, x, here, rfl⟩, stay⟩
      exact ⟨k, x, here, stay, rfl⟩
    · rintro ⟨k, x, here, stay, rfl⟩
      exact ⟨⟨k, x, here, rfl⟩, stay⟩
  rw [bake_content h, bake_annots keeps h, List.map_append, ← kept, ← mem_drawnParts]
  simp only [List.mem_append, List.mem_map, or_assoc]
  exact or_congr_right or_left_comm

/-- What is shown on the baked page, given that every element is drawn once. -/
theorem shown_iff (renderer : ∀ e d, engine.render e = .changed d → shows d e)
    (keeps : engine.KeepsNames) (parsed : Parsed shows σ₀) (edits : Edits σ₀.page σ)
    (once : σ.DrawsOnce engine) (h : σ.bake engine = some σ') :
    (∀ y ∈ σ'.page.content ++ σ'.page.annots, ∀ e ∈ σ.scene, e.elementId = y.2 → shows y.1 e) ↔
      σ.ShowsLast engine shows σ₀.scene := by
  have before : ∀ x ∈ σ.page.content ++ σ.page.annots, ∀ e ∈ σ₀.scene, e.elementId = x.2 →
      shows x.1 e := by
    rw [edits.page]
    exact parsed.draws.shown
  have drawn_id : ∀ d ∈ drawnElements engine.tagged σ.page σ.queue,
      (σ.drawnPart engine d).2 = d.1.elementId := by
    intro d drawn
    rw [← (mem_draws_tagged drawn).2, drawnPart]
    split
    · rfl
    · exact filledPart_id engine σ d.2
  constructor
  · intro shown
    have baked := fun y => (@mem_baked _ _ _ _ _ keeps edits.queued h y).mpr
    refine ⟨fun k x here absent e mem id _ => ?_, fun x on_page e mem id _ => ?_,
      fun d drawn e mem id _ => ?_, fun d drawn e mem id _ => ?_⟩
    · have inScene : x.2 ∈ σ.sceneIds := by
        rw [← id]
        exact List.mem_map_of_mem mem
      have stay := (once.redacted k x here).mpr ⟨inScene, absent⟩
      have id' := editedPart_id engine σ edits.queued here
      exact shown _ (baked _ (.inl ⟨k, x, here, stay, rfl⟩)) e mem (id.trans id'.symm)
    · have id' := filledPart_id engine σ x
      exact shown _ (baked _ (.inr (.inl ⟨x, on_page, rfl⟩))) e mem (id.trans id'.symm)
    · have id' := drawn_id d drawn
      exact shown _ (baked _ (.inr (.inr (.inl ⟨d, drawn, rfl⟩)))) e mem (id.trans id'.symm)
    · have id' := (mem_draws_tagged drawn).2
      exact shown _ (baked _ (.inr (.inr (.inr ⟨d, drawn, rfl⟩)))) e mem (id.trans id'.symm)
  · intro last y mem e inScene id
    -- what is left as it is shows the element as parsed, what is drawn from `e` shows `e`
    obtain ⟨k, x, here, stay, rfl⟩ | ⟨x, on_page, rfl⟩ | ⟨d, drawn, rfl⟩ | ⟨d, drawn, rfl⟩ :=
      (mem_baked keeps edits.queued h).mp mem
    · rw [editedPart_id engine σ edits.queued here] at id
      have absent := ((once.redacted k x here).mp stay).2
      by_cases changed : σ.editedPart engine k x ≠ x ∨ e ∉ σ₀.scene
      · exact last.edited k x here absent e inScene id changed
      · obtain ⟨same, old⟩ : σ.editedPart engine k x = x ∧ e ∈ σ₀.scene := by
          simpa only [not_or, not_not] using changed
        rw [same]
        exact before x (List.mem_append_left _ (List.mem_of_getElem? here)) e old id
    · rw [filledPart_id] at id
      by_cases changed : σ.filledPart engine x ≠ x ∨ e ∉ σ₀.scene
      · exact last.filled x on_page e inScene id changed
      · obtain ⟨same, old⟩ : σ.filledPart engine x = x ∧ e ∈ σ₀.scene := by
          simpa only [not_or, not_not] using changed
        rw [same]
        exact before x (List.mem_append_right _ on_page) e old id
    · rw [drawn_id d drawn] at id
      by_cases changed : σ.drawnPart engine d ≠ d.2 ∨ d.1 ≠ e
      · exact last.drawn d drawn e inScene id changed
      · obtain ⟨same, rfl⟩ : σ.drawnPart engine d = d.2 ∧ d.1 = e := by
          simpa only [not_or, not_not] using changed
        rw [same]
        exact renderer _ _ (mem_draws_tagged drawn).1
    · obtain ⟨rendered, id'⟩ := mem_draws_tagged drawn
      by_cases same : d.1 = e
      · rw [← same]
        exact renderer _ _ rendered
      · exact last.materialised d drawn e inScene (id.trans id') same

/-- What is added is drawn, and it does not help to delete it again. -/
theorem not_drawsOnce_of_removed {op : ElementOp ρ} {d : δ} (mem : op ∈ σ.queue)
    (added : op.action = .add) (typed : op.element.body.isSome = true)
    (rendered : engine.render op.element = .changed d)
    (removed : op.element.elementId ∉ σ.sceneIds) : ¬ σ.DrawsOnce engine := by
  intro once
  obtain ⟨k, queued⟩ : ∃ k, (op, k) ∈ σ.queue.zipIdx := by
    obtain ⟨k, bound, here⟩ := List.mem_iff_getElem.mp mem
    exact ⟨k, by simp [List.mem_zipIdx_iff_getElem?, bound, here]⟩
  have route : classify engine.tagged σ.page k op = .fallback := by simp [classify, added]
  have fallback : op ∈ fallbacks engine.tagged σ.page σ.queue :=
    mem_fallbacks.mpr (mem_routed.mpr ⟨k, queued, route⟩)
  have add_op : op.element ∈ addOps (fallbacks engine.tagged σ.page σ.queue) :=
    List.mem_map_of_mem (List.mem_filter.mpr ⟨fallback, by simp [added, typed]⟩)
  have tagged : engine.tagged.render op.element = .changed (d, op.element.elementId) := by
    show (engine.render op.element).tag _ = _
    rw [rendered]
    rfl
  have drawn : (op.element, (d, op.element.elementId)) ∈
      drawnElements engine.tagged σ.page σ.queue :=
    List.mem_filterMap.mpr ⟨op.element, add_op, by rw [tagged]⟩
  exact removed (once.deleted _ (List.mem_map_of_mem (List.mem_append_left _ drawn)))

end

end EditorPage

end

namespace EditorPage

/-- An image shows where it is. -/
def imageShows (d : Bounds) (e : ElementRecord Unit) : Prop :=
  e.bounds.map (toPdfBounds squarePage) = some d

theorem imagePdf_renders (e : ElementRecord Unit) (d : Bounds)
    (h : imagePdf.render e = .changed d) : imageShows d e := by
  cases bounds : e.bounds with
  | none => simp [imagePdf, bounds] at h
  | some b =>
    have drawn : toPdfBounds squarePage b = d := by simpa [imagePdf, bounds] using h
    rw [imageShows, bounds, Option.map_some, drawn]

theorem twoImages_parsed : Parsed imageShows twoImages where
  saved := rfl
  unique := by decide
  draws := ⟨List.Perm.refl _, by unfold imageShows; decide +kernel⟩

end EditorPage

end GigaPdf
