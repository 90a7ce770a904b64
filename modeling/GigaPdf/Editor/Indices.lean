import GigaPdf.Editor.SceneGraph

/-!
# Indices across bakes

The scene graph keeps the indices that the last parse gave it, while redactions and redrawn elements
renumber the page with every bake. Between two bakes nothing moves, so that an edit in place hits
its element as long as the index of the element is its position.
-/

namespace GigaPdf

open OperationsStore Positions

section
variable {δ ρ : Type}

namespace EditorPage

/-- The index of an element is its position in the page. -/
def Indexed (σ : EditorPage δ ρ) : Prop :=
  ∀ e ∈ σ.scene, ∀ i, validRunIndex e.index = some i →
    (σ.page.content[i]?).map Prod.snd = some e.elementId

/-- So is the index that a pending operation names. -/
def QueueIndexed (σ : EditorPage δ ρ) : Prop :=
  ∀ op ∈ σ.queue, ∀ i, validRunIndex op.element.index = some i →
    (σ.page.content[i]?).map Prod.snd = some op.element.elementId

section
variable (engine : PdfEngine δ ρ) (σ : EditorPage δ ρ)

/-- The content that the bake redacts, after the edits in place. -/
def edited : List (δ × String) := editedContent engine.tagged σ.page σ.queue

/-- It meets none of the boxes that the bake redacts. -/
def stays (d : δ × String) : Bool :=
  !engine.tagged.redacted σ.page.info (fallbacks engine.tagged σ.page σ.queue) d

/-- What the bake draws into the content. -/
def drawn : List (δ × String) := drawnContent (drawnElements engine.tagged σ.page σ.queue)

/-- The element stays, and as many elements stay before it. -/
def StaysAt (elementId : String) (i : Nat) : Prop :=
  ∃ k d, (σ.edited engine)[k]? = some (d, elementId) ∧ σ.stays engine (d, elementId) = true ∧
    ((σ.edited engine).take k).countP (σ.stays engine) = i

/-- The element is drawn, and as many elements stay or are drawn before it. -/
def DrawnAt (elementId : String) (i : Nat) : Prop :=
  ∃ k, ((σ.drawn engine)[k]?).map Prod.snd = some elementId ∧
    (σ.edited engine).countP (σ.stays engine) + k = i

/-- Every element with an index stays at it, or is drawn there. -/
def soundBake : Prop :=
  ∀ e ∈ σ.scene, ∀ i, validRunIndex e.index = some i →
    σ.StaysAt engine e.elementId i ∨ σ.DrawnAt engine e.elementId i

def soundStep : EditorAction ρ → Prop
  | .bake => σ.soundBake engine
  | .add _ | .modify _ _ | .remove _ => True

variable {engine σ}

theorem position_iff (elementId : String) (i : Nat) :
    (((σ.edited engine).filter (σ.stays engine) ++ σ.drawn engine)[i]?).map Prod.snd =
        some elementId ↔
      σ.StaysAt engine elementId i ∨ σ.DrawnAt engine elementId i := by
  have length : ((σ.edited engine).filter (σ.stays engine)).length =
      (σ.edited engine).countP (σ.stays engine) := (List.countP_eq_length_filter ..).symm
  have kept : (((σ.edited engine).filter (σ.stays engine))[i]?).map Prod.snd = some elementId ↔
      σ.StaysAt engine elementId i := by
    rw [Option.map_eq_some_iff]
    constructor
    · rintro ⟨⟨d, elementId'⟩, here, same⟩
      cases same
      obtain ⟨k, found, stay, count⟩ := getElem?_filter_eq_some_iff.mp here
      exact ⟨k, d, found, stay, count⟩
    · rintro ⟨k, d, found, stay, count⟩
      exact ⟨(d, elementId), getElem?_filter_eq_some_iff.mpr ⟨k, found, stay, count⟩, rfl⟩
  rw [← kept]
  by_cases bound : i < ((σ.edited engine).filter (σ.stays engine)).length
  · rw [List.getElem?_append_left bound]
    constructor
    · exact .inl
    · rintro (here | ⟨k, -, position⟩)
      · exact here
      · omega
  · have past : ((σ.edited engine).filter (σ.stays engine))[i]? = none := by
      rw [List.getElem?_eq_none_iff]
      omega
    rw [List.getElem?_append_right (by omega), past]
    constructor
    · intro here
      exact .inr ⟨_, here, by omega⟩
    · rintro (none_here | ⟨k, here, position⟩)
      · cases none_here
      · have k_eq : k = i - ((σ.edited engine).filter (σ.stays engine)).length := by omega
        rw [← k_eq]
        exact here

theorem bake_content {σ' : EditorPage δ ρ} (h : σ.bake engine = some σ') :
    σ'.page.content = (σ.edited engine).filter (σ.stays engine) ++ σ.drawn engine := by
  obtain ⟨page, applied, rfl⟩ := Option.map_eq_some_iff.mp h
  exact (applyOperations_spec applied).1

theorem indexed_bake_iff {σ' : EditorPage δ ρ} (h : σ.bake engine = some σ') :
    Indexed σ' ↔ σ.soundBake engine := by
  have scene : σ'.scene = σ.scene := by
    obtain ⟨page, -, rfl⟩ := Option.map_eq_some_iff.mp h
    rfl
  rw [Indexed, soundBake, scene, bake_content h]
  simp only [position_iff]

instance : Decidable (σ.soundBake engine) :=
  decidable_of_iff (∀ e ∈ σ.scene, ∀ i ∈ validRunIndex e.index,
    (((σ.edited engine).filter (σ.stays engine) ++ σ.drawn engine)[i]?).map Prod.snd =
      some e.elementId) (by simp only [position_iff, Option.mem_def, soundBake])

instance : ∀ a, Decidable (soundStep engine σ a)
  | .bake => inferInstanceAs (Decidable (σ.soundBake engine))
  | .add _ | .modify _ _ | .remove _ => .isTrue trivial

end

/-! ## Actions -/

/-- An element that is synchronized stays what it is but for its value. -/
theorem mem_syncSiblings {element e : ElementRecord ρ} {scene : List (ElementRecord ρ)}
    (mem : e ∈ syncSiblings element scene) :
    ∃ e' ∈ scene, e'.elementId = e.elementId ∧ e'.index = e.index := by
  rw [syncSiblings] at mem
  split at mem
  · split at mem
    · exact ⟨e, mem, rfl, rfl⟩
    · obtain ⟨e', mem', rfl⟩ := List.mem_map.mp mem
      refine ⟨e', mem', ?_⟩
      split
      · split <;> exact ⟨rfl, rfl⟩
      · exact ⟨rfl, rfl⟩
  · exact ⟨e, mem, rfl, rfl⟩

theorem mem_updateElement {element e : ElementRecord ρ} {scene : List (ElementRecord ρ)}
    (mem : e ∈ updateElement element scene) : e = element ∨ e ∈ scene := by
  obtain ⟨e', mem', rfl⟩ := List.mem_map.mp mem
  split
  · exact .inl rfl
  · exact .inr mem'

theorem Indexed.step {engine : PdfEngine δ ρ} {pageNumber : Nat} {σ σ' : EditorPage δ ρ}
    {a : EditorAction ρ} (inv : Indexed σ ∧ QueueIndexed σ) (sound : soundStep engine σ a)
    (h : σ.step engine pageNumber a = some σ') : Indexed σ' ∧ QueueIndexed σ' := by
  obtain ⟨indexed, queued⟩ := inv
  cases a with
  | add element =>
    obtain ⟨⟨-, unindexed, -⟩, h⟩ := Option.ite_none_right_eq_some.mp h
    cases h
    constructor
    · intro e mem i valid
      obtain old | new := List.mem_append.mp mem
      · exact indexed e old i valid
      · rw [List.mem_singleton.mp new, unindexed] at valid
        cases valid
    · intro op mem i valid
      obtain old | new := List.mem_append.mp mem
      · exact queued op old i valid
      · rw [List.mem_singleton.mp new] at valid
        rw [show (ElementOperation.element ⟨.add, pageNumber, element, none, none⟩).index = none
          from unindexed] at valid
        cases valid
  | modify element oldBounds =>
    obtain ⟨⟨known, mem, id, -, index⟩, h⟩ := Option.ite_none_right_eq_some.mp h
    obtain ⟨bounds, -, rfl⟩ := Option.map_eq_some_iff.mp h
    have here : ∀ i, validRunIndex element.index = some i →
        (σ.page.content[i]?).map Prod.snd = some element.elementId := by
      rw [← index, ← id]
      exact indexed known mem
    constructor
    · intro e mem i valid
      obtain ⟨e', mem', id', index'⟩ := mem_syncSiblings mem
      rw [← index'] at valid
      rw [← id']
      obtain rfl | old := mem_updateElement mem'
      · exact here i valid
      · exact indexed e' old i valid
    · intro op mem i valid
      obtain old | ⟨existing, -, rfl⟩ | ⟨-, rfl⟩ := Upsert.mem_upsert mem
      · exact queued op old i valid
      · exact here i valid
      · exact here i valid
  | remove elementId =>
    obtain ⟨removed, found, h⟩ := Option.bind_eq_some_iff.mp h
    obtain ⟨bounds, -, rfl⟩ := Option.map_eq_some_iff.mp h
    constructor
    · intro e mem i valid
      exact indexed e (List.mem_filter.mp mem).1 i valid
    · intro op mem i valid
      obtain old | new := List.mem_append.mp mem
      · exact queued op old i valid
      · rw [List.mem_singleton.mp new] at valid ⊢
        exact indexed removed (List.mem_of_find?_eq_some found) i valid
  | bake =>
    refine ⟨(indexed_bake_iff h).mpr sound, ?_⟩
    obtain ⟨page, -, rfl⟩ := Option.map_eq_some_iff.mp h
    intro op mem
    cases mem

end EditorPage

end

namespace EditorPage

theorem twoImages_indexed : Indexed twoImages := by
  intro e mem i valid
  simp only [twoImages, List.mem_cons, List.not_mem_nil, or_false] at mem
  obtain rfl | rfl := mem
  · cases valid
    rfl
  · cases valid
    rfl

end EditorPage

end GigaPdf
