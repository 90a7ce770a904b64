import GigaPdf.Engine.ParagraphOps

/-!
# One op per block

`applyParagraphOps` merges the patches of a block and gives the engine one op for it. The engine is
not of this repository: it is known by what an op on a paragraph overrides.
-/

namespace GigaPdf

open FirstWriter Upsert Grouping

/-- A patch gives the fields that it provides. -/
abbrev Patch (F V : Type) := F → Option V

section
variable {F V μ : Type}

/-- `{ ...prev, ...patch }` -/
def Patch.spread (prev patch : Patch F V) : Patch F V := fun f => (patch f).or (prev f)

def Patch.override (patch : Patch F V) (style : F → V) : F → V := fun f => (patch f).getD (style f)

theorem Patch.override_spread (prev patch : Patch F V) (style : F → V) :
    (prev.spread patch).override style = patch.override (prev.override style) := by
  funext f
  unfold override spread
  cases patch f <;> rfl

/-- The patches of edits, merged in the order of the edits. -/
def mergedPatch (edits : List (ParagraphStyleEdit (Patch F V))) : Patch F V :=
  edits.foldl (fun prev edit => prev.spread edit.patch) (fun _ => none)

theorem mergedPatch_append_singleton (edits : List (ParagraphStyleEdit (Patch F V)))
    (edit : ParagraphStyleEdit (Patch F V)) :
    mergedPatch (edits ++ [edit]) = (mergedPatch edits).spread edit.patch := by
  rw [mergedPatch, List.foldl_append]
  rfl

theorem mergedPatch_singleton (edit : ParagraphStyleEdit (Patch F V)) :
    mergedPatch [edit] = edit.patch := by
  funext f
  exact Option.or_none

/-! ## The engine -/

/-- A model of the engine: what the address maps read of it, the paragraph fields of the blocks
that it has, and all the rest. -/
structure ModelEngine (F V μ : Type) where
  Model : Type
  Rest : Type
  document : Model → GigaDocument
  style : Model → GigaBlockAddr → Option (F → V)
  rest : Model → Rest
  applyOp : Model → ModelOp (Patch F V) μ → Model

variable (engine : ModelEngine F V μ)

def ModelEngine.applyModelOps (model : engine.Model) (ops : List (ModelOp (Patch F V) μ)) :
    engine.Model :=
  ops.foldl engine.applyOp model

/-- `setParagraphStyle` overrides the provided fields of the block at the address, if there is one,
and nothing else. -/
structure ModelEngine.Overrides : Prop where
  ext : ∀ m m', engine.style m = engine.style m' → engine.rest m = engine.rest m' → m = m'
  style_set : ∀ m addr patch addr', engine.style (engine.applyOp m (.setParagraphStyle addr patch))
    addr' = if addr' = addr then (engine.style m addr').map patch.override else
      engine.style m addr'
  rest_set : ∀ m addr patch,
    engine.rest (engine.applyOp m (.setParagraphStyle addr patch)) = engine.rest m

/-- An edit acts on the block alone. -/
def ModelEngine.act (addr : GigaBlockAddr) (edit : ParagraphStyleEdit (Patch F V))
    (m : engine.Model) : engine.Model :=
  engine.applyOp m (.setParagraphStyle addr edit.patch)

variable {engine}

theorem act_commutes (lawful : engine.Overrides) : Commutes engine.act := by
  intro addr addr' apart edit edit' m
  apply lawful.ext
  · funext other
    unfold ModelEngine.act
    simp only [lawful.style_set]
    by_cases here : other = addr
    · have away : other ≠ addr' := by
        rw [here]
        exact apart
      rw [if_pos here, if_neg away, if_neg away, if_pos here]
    · rw [if_neg here, if_neg here]
  · unfold ModelEngine.act
    simp only [lawful.rest_set]

theorem applyOp_spread (lawful : engine.Overrides) (m : engine.Model) (addr : GigaBlockAddr)
    (prev patch : Patch F V) :
    engine.applyOp m (.setParagraphStyle addr (prev.spread patch)) =
      engine.applyOp (engine.applyOp m (.setParagraphStyle addr prev))
        (.setParagraphStyle addr patch) := by
  apply lawful.ext
  · funext other
    simp only [lawful.style_set]
    by_cases here : other = addr
    · rw [if_pos here, if_pos here, if_pos here, Option.map_map]
      congr 1
      funext style
      exact Patch.override_spread prev patch style
    · rw [if_neg here, if_neg here, if_neg here]
  · simp only [lawful.rest_set]

theorem applyOp_empty (lawful : engine.Overrides) (m : engine.Model) (addr : GigaBlockAddr) :
    engine.applyOp m (.setParagraphStyle addr fun _ => none) = m := by
  apply lawful.ext
  · funext other
    rw [lawful.style_set]
    split
    · exact Option.map_id'
    · rfl
  · exact lawful.rest_set m addr _

/-- The op of a block does what its edits do. -/
theorem applyOp_mergedPatch (lawful : engine.Overrides) (m : engine.Model)
    (g : GigaBlockAddr × List (ParagraphStyleEdit (Patch F V))) :
    engine.applyOp m (.setParagraphStyle g.1 (mergedPatch g.2)) = actGroup engine.act g m := by
  obtain ⟨addr, edits⟩ := g
  induction edits using List.reverseRecOn with
  | nil => exact applyOp_empty lawful m addr
  | append_singleton edits edit ih =>
    have last : actGroup engine.act (addr, edits ++ [edit]) m =
        engine.act addr edit (actGroup engine.act (addr, edits) m) := by
      rw [actGroup, List.foldl_append]
      rfl
    rw [mergedPatch_append_singleton, applyOp_spread lawful, last, ← ih]
    rfl

/-! ## The ops -/

def blockOf (map : AddrMap) (edit : ParagraphStyleEdit (Patch F V)) : Option GigaBlockAddr :=
  lookup edit.sourceIndex map

def paragraphOp (map : AddrMap) (edit : ParagraphStyleEdit (Patch F V)) :
    Option (ModelOp (Patch F V) μ) :=
  (blockOf map edit).map fun addr => .setParagraphStyle addr edit.patch

/-- The edits of each block, in the order in which the blocks are first met. -/
def editsByBlock (map : AddrMap) (edits : List (ParagraphStyleEdit (Patch F V))) :
    List (GigaBlockAddr × List (ParagraphStyleEdit (Patch F V))) :=
  group (blockOf map) edits

theorem mergePatches_eq (map : AddrMap) (edits : List (ParagraphStyleEdit (Patch F V))) :
    mergePatches Patch.spread map edits =
      (editsByBlock map edits).map fun g => (g.1, mergedPatch g.2) := by
  induction edits using List.reverseRecOn with
  | nil => rfl
  | append_singleton edits edit ih =>
    rw [mergePatches_append_singleton, ih]
    unfold editsByBlock
    cases found : lookup edit.sourceIndex map with
    | none => rw [@group_of_none _ _ _ (blockOf map) _ _ found]
    | some addr =>
      rw [@group_of_some _ _ _ (blockOf map) _ _ _ found, enter]
      symm
      rw [← mergedPatch_singleton edit]
      apply map_upsert
      · intro _
        rfl
      · intro g
        rw [mergedPatch_append_singleton, mergedPatch_singleton]

/-- The merged ops do what the edits do one by one. -/
theorem foldl_mergePatches (lawful : engine.Overrides) (map : AddrMap)
    (edits : List (ParagraphStyleEdit (Patch F V))) (m : engine.Model) :
    engine.applyModelOps m ((mergePatches Patch.spread map edits).map fun e =>
        .setParagraphStyle e.1 e.2) =
      engine.applyModelOps m (edits.filterMap (paragraphOp map)) := by
  have grouped : engine.applyModelOps m ((mergePatches Patch.spread map edits).map fun e =>
        .setParagraphStyle e.1 e.2) =
      (editsByBlock map edits).foldl (fun m g => actGroup engine.act g m) m := by
    rw [mergePatches_eq, List.map_map, ModelEngine.applyModelOps, List.foldl_map]
    simp only [Function.comp_apply, applyOp_mergedPatch lawful]
  rw [grouped, editsByBlock, foldl_group (act_commutes lawful), ModelEngine.applyModelOps,
    List.foldl_filterMap]
  congr 1
  funext m edit
  rw [paragraphOp]
  cases blockOf map edit <;> rfl

/-! ## The batch -/

/-- What `applyParagraphOps` renders. -/
def ModelEngine.edited (engine : ModelEngine F V μ) (model : engine.Model)
    (paragraphEdits : List (ParagraphStyleEdit (Patch F V))) (listEdits : List (ListEdit μ)) :
    engine.Model :=
  let result := applyParagraphOps Patch.spread (engine.document model) paragraphEdits listEdits
  if 0 < result.resolved then engine.applyModelOps model result.ops else model

/-- One op for every edit that is resolved, in the order of the edits. -/
def opsOneByOne (document : GigaDocument)
    (paragraphEdits : List (ParagraphStyleEdit (Patch F V))) (listEdits : List (ListEdit μ)) :
    List (ModelOp (Patch F V) μ) :=
  paragraphEdits.filterMap (paragraphOp (buildSourceIndexAddrMap document)) ++
    listEdits.filterMap (listOp (buildListAddrMap document))

theorem edited_eq_oneByOne (lawful : engine.Overrides) (model : engine.Model)
    (paragraphEdits : List (ParagraphStyleEdit (Patch F V))) (listEdits : List (ListEdit μ)) :
    engine.edited model paragraphEdits listEdits =
      engine.applyModelOps model
        (opsOneByOne (engine.document model) paragraphEdits listEdits) := by
  have batch : engine.applyModelOps model
      (applyParagraphOps Patch.spread (engine.document model) paragraphEdits listEdits).ops =
      engine.applyModelOps model
        (opsOneByOne (engine.document model) paragraphEdits listEdits) := by
    have paragraphs := foldl_mergePatches lawful
      (buildSourceIndexAddrMap (engine.document model)) paragraphEdits model
    unfold ModelEngine.applyModelOps at paragraphs ⊢
    rw [applyParagraphOps, opsOneByOne, List.foldl_append, List.foldl_append, paragraphs]
  rw [ModelEngine.edited]
  split
  · exact batch
  · rename_i nothing
    have empty : (applyParagraphOps Patch.spread (engine.document model) paragraphEdits
        listEdits).ops = [] := List.eq_nil_of_length_eq_zero (Nat.eq_zero_of_not_pos nothing)
    rw [empty] at batch
    exact batch

/-! ## The account of the edits -/

def ListEdit.op (edit : ListEdit μ) (addr : GigaBlockAddr) : ModelOp (Patch F V) μ :=
  match edit.change with
  | .level level => .setListLevel addr level
  | .marker marker => .setListMarker addr marker
  | .ordered ordered => .setListOrdered addr ordered

/-- Every edit is merged in one op of the block that it leads to, or is an op of its own, or leads
to no block and is reported. -/
def Accounted (document : GigaDocument)
    (paragraphEdits : List (ParagraphStyleEdit (Patch F V))) (listEdits : List (ListEdit μ))
    (result : ApplyParagraphOpsResult (Patch F V) μ) : Prop :=
  ∃ (merged : List (GigaBlockAddr × List (ParagraphStyleEdit (Patch F V))))
    (single : List (GigaBlockAddr × ListEdit μ))
    (lostParagraphs : List (ParagraphStyleEdit (Patch F V))) (lostLists : List (ListEdit μ)),
    result.ops = merged.map (fun c => .setParagraphStyle c.1 (mergedPatch c.2)) ++
      single.map (fun c => c.2.op c.1) ∧
    result.unresolved = lostParagraphs.map ParagraphStyleEdit.sourceIndex ++
      lostLists.map ListEdit.sourceIndex ∧
    (merged.map Prod.fst).Nodup ∧
    (merged.flatMap Prod.snd ++ lostParagraphs).Perm paragraphEdits ∧
    (single.map Prod.snd ++ lostLists).Perm listEdits ∧
    (∀ c ∈ merged, c.2 ≠ [] ∧
      ∀ edit ∈ c.2, lookup edit.sourceIndex (buildSourceIndexAddrMap document) = some c.1) ∧
    (∀ c ∈ single, lookup c.2.sourceIndex (buildListAddrMap document) = some c.1) ∧
    (∀ edit ∈ lostParagraphs,
      lookup edit.sourceIndex (buildSourceIndexAddrMap document) = none) ∧
    ∀ edit ∈ lostLists, lookup edit.sourceIndex (buildListAddrMap document) = none

theorem filter_isSome_append_isNone {α β : Type} (f : α → Option β) (l : List α) :
    ((l.filter fun a => (f a).isSome) ++ l.filter fun a => (f a).isNone).Perm l := by
  have split := List.filter_append_perm (fun a => (f a).isSome) l
  simpa using split

theorem map_snd_filterMap {α β : Type} (f : α → Option β) (l : List α) :
    (l.filterMap fun a => (f a).map fun b => (b, a)).map Prod.snd =
      l.filter fun a => (f a).isSome := by
  induction l with
  | nil => rfl
  | cons a l ih =>
    cases found : f a with
    | none => rw [List.filterMap_cons_none (by rw [found]; rfl), ih,
        List.filter_cons_of_neg (by simp [found])]
    | some b => rw [List.filterMap_cons_some (by rw [found]; rfl), List.map_cons, ih,
        List.filter_cons_of_pos (by simp [found])]

theorem length_filterMap {α β : Type} (f : α → Option β) (l : List α) :
    (l.filterMap f).length = (l.filter fun a => (f a).isSome).length := by
  rw [← map_snd_filterMap, List.length_map]
  induction l with
  | nil => rfl
  | cons a l ih => cases found : f a <;> simp [found, ih]

theorem accounted (document : GigaDocument)
    (paragraphEdits : List (ParagraphStyleEdit (Patch F V))) (listEdits : List (ListEdit μ)) :
    Accounted document paragraphEdits listEdits
      (applyParagraphOps Patch.spread document paragraphEdits listEdits) := by
  let map := buildSourceIndexAddrMap document
  let listMap := buildListAddrMap document
  let single := listEdits.filterMap fun edit =>
    (lookup edit.sourceIndex listMap).map fun addr => (addr, edit)
  have ops : single.map (fun c => (c.2.op c.1 : ModelOp (Patch F V) μ)) =
      listEdits.filterMap (listOp listMap) := by
    rw [List.map_filterMap]
    congr 1
    funext edit
    rw [Option.map_map]
    rfl
  refine ⟨editsByBlock map paragraphEdits, single,
    paragraphEdits.filter fun edit => (blockOf map edit).isNone,
    listEdits.filter fun edit => (lookup edit.sourceIndex listMap).isNone, ?_, rfl,
    nodup_keys paragraphEdits, ?_, ?_, ?_, ?_, ?_, ?_⟩
  · simp only [applyParagraphOps]
    rw [mergePatches_eq, List.map_map, ops]
    rfl
  · exact ((flatMap_group_perm paragraphEdits).append_right _).trans
      (filter_isSome_append_isNone (blockOf map) paragraphEdits)
  · rw [map_snd_filterMap]
    exact filter_isSome_append_isNone _ listEdits
  · intro c mem
    exact group_items mem
  · intro c mem
    obtain ⟨edit, -, found⟩ := List.mem_filterMap.mp mem
    obtain ⟨addr, leads, rfl⟩ := Option.map_eq_some_iff.mp found
    exact leads
  · intro edit mem
    exact Option.isNone_iff_eq_none.mp (List.mem_filter.mp mem).2
  · intro edit mem
    exact Option.isNone_iff_eq_none.mp (List.mem_filter.mp mem).2

/-- The number of the edits is that of the ops and of the reports just when no two paragraph edits
lead to one block. -/
theorem resolved_add_unresolved_iff (document : GigaDocument)
    (paragraphEdits : List (ParagraphStyleEdit (Patch F V))) (listEdits : List (ListEdit μ)) :
    let result := applyParagraphOps Patch.spread document paragraphEdits listEdits
    result.resolved + result.unresolved.length = paragraphEdits.length + listEdits.length ↔
      (paragraphEdits.filterMap (blockOf (buildSourceIndexAddrMap document))).Nodup := by
  intro result
  let map := buildSourceIndexAddrMap document
  let listMap := buildListAddrMap document
  have paragraphs := (filter_isSome_append_isNone (blockOf map) paragraphEdits).length_eq
  have lists := (filter_isSome_append_isNone
    (fun edit : ListEdit μ => lookup edit.sourceIndex listMap) listEdits).length_eq
  have listOps : (listEdits.filterMap (listOp listMap : _ → Option (ModelOp (Patch F V) μ))).length =
      (listEdits.filter fun edit => (lookup edit.sourceIndex listMap).isSome).length := by
    rw [length_filterMap]
    simp only [listOp, Option.isSome_map]
  have resolved : result.resolved = (editsByBlock map paragraphEdits).length +
      (listEdits.filter fun edit => (lookup edit.sourceIndex listMap).isSome).length := by
    rw [← listOps]
    simp only [result, applyParagraphOps, List.length_append, List.length_map, mergePatches_eq]
    rfl
  have unresolved : result.unresolved.length =
      (paragraphEdits.filter fun edit => (blockOf map edit).isNone).length +
      (listEdits.filter fun edit => (lookup edit.sourceIndex listMap).isNone).length := by
    simp only [result, applyParagraphOps, List.length_append, List.length_map]
    rfl
  have keyed := length_filterMap (blockOf map) paragraphEdits
  rw [List.length_append] at paragraphs lists
  rw [resolved, unresolved, ← length_group_iff]
  change _ ↔ (editsByBlock map paragraphEdits).length =
    (paragraphEdits.filterMap (blockOf map)).length
  constructor <;> intro counted <;> omega

/-- **A batch of edits does what its edits do one by one**, and accounts for all of them; they are
counted right just when no two paragraph edits lead to one block. -/
theorem paragraphEdits_batched (lawful : engine.Overrides) (model : engine.Model)
    (paragraphEdits : List (ParagraphStyleEdit (Patch F V))) (listEdits : List (ListEdit μ)) :
    let document := engine.document model
    let result := applyParagraphOps Patch.spread document paragraphEdits listEdits
    engine.edited model paragraphEdits listEdits =
      engine.applyModelOps model (opsOneByOne document paragraphEdits listEdits) ∧
    Accounted document paragraphEdits listEdits result ∧
    (result.resolved + result.unresolved.length = paragraphEdits.length + listEdits.length ↔
      (paragraphEdits.filterMap (blockOf (buildSourceIndexAddrMap document))).Nodup) :=
  ⟨edited_eq_oneByOne lawful model paragraphEdits listEdits,
    accounted (engine.document model) paragraphEdits listEdits,
    resolved_add_unresolved_iff (engine.document model) paragraphEdits listEdits⟩

end

/-! ## A page of two paragraphs -/

/-- The first paragraph has two runs. -/
def twoParagraphs : GigaDocument :=
  ⟨[⟨[⟨[paragraphBlock [plainRun 0, plainRun 1], paragraphBlock [plainRun 2]]⟩]⟩]⟩

/-- The patch of one field. -/
def fieldPatch (field value : String) : Patch String String := fun f =>
  if f = field then some value else none

/-- An engine of which the fields are all that there is. -/
def fieldEngine : ModelEngine String String String where
  Model := (GigaBlockAddr → Option (String → String)) ×
    (GigaBlockAddr → Option (Int × String × Bool)) × GigaDocument
  Rest := (GigaBlockAddr → Option (Int × String × Bool)) × GigaDocument
  document m := m.2.2
  style m := m.1
  rest m := m.2
  applyOp
    | (styles, lists, document), .setParagraphStyle addr patch =>
      (fun a => if a = addr then (styles a).map patch.override else styles a, lists, document)
    | (styles, lists, document), .setListLevel addr level =>
      (styles, fun a => if a = addr then (lists a).map fun l => (level, l.2) else lists a, document)
    | (styles, lists, document), .setListMarker addr marker =>
      (styles, fun a => if a = addr then (lists a).map fun l => (l.1, marker, l.2.2) else lists a,
        document)
    | (styles, lists, document), .setListOrdered addr ordered =>
      (styles, fun a => if a = addr then (lists a).map fun l => (l.1, l.2.1, ordered) else lists a,
        document)

theorem fieldEngine_overrides : fieldEngine.Overrides where
  ext _ _ style rest := Prod.ext style rest
  style_set _ _ _ _ := rfl
  rest_set _ _ _ := rfl

/-- Two edits of different paragraphs, and one of no paragraph. -/
theorem paragraphEdits_batched_two_paragraphs :
    let model : fieldEngine.Model := (fun _ => some fun _ => "unset", fun _ => none, twoParagraphs)
    let edits : List (ParagraphStyleEdit (Patch String String)) :=
      [⟨1, fieldPatch "align" "center"⟩, ⟨2, fieldPatch "align" "right"⟩,
        ⟨9, fieldPatch "align" "left"⟩]
    let result : ApplyParagraphOpsResult (Patch String String) String :=
      applyParagraphOps Patch.spread twoParagraphs edits []
    fieldEngine.edited model edits [] =
      fieldEngine.applyModelOps model (opsOneByOne twoParagraphs edits []) ∧
    result.resolved + result.unresolved.length = 3 := by
  obtain ⟨same, -, counted⟩ := paragraphEdits_batched fieldEngine_overrides
    (fun _ => some fun _ => "unset", fun _ => none, twoParagraphs)
    [⟨1, fieldPatch "align" "center"⟩, ⟨2, fieldPatch "align" "right"⟩,
      ⟨9, fieldPatch "align" "left"⟩] []
  exact ⟨same, counted.mpr (by decide)⟩

/-- Edits of the two runs of a paragraph: one op, and nothing is unresolved. -/
theorem paragraphEdits_counted_once :
    let result : ApplyParagraphOpsResult (Patch String String) String :=
      applyParagraphOps Patch.spread twoParagraphs
        [⟨0, fieldPatch "align" "center"⟩, ⟨1, fieldPatch "indent" "12"⟩] []
    result.resolved = 1 ∧ result.unresolved = [] ∧
      result.resolved + result.unresolved.length ≠ 2 := by
  decide

end GigaPdf
