import GigaPdf.Engine.Blocks
import GigaPdf.Lib.Grouping

/-!
# Paragraph and list edits

`applyParagraphOps` finds the block of an edit by the source index of its run. Source indices are
numbered per page, and the map is one for the whole document.
-/

namespace GigaPdf

open FirstWriter Grouping Upsert

section
variable {π μ : Type}

structure ParagraphStyleEdit (π : Type) where
  sourceIndex : Int
  patch : π

inductive ListChange (μ : Type)
  | level (level : Int)
  | marker (marker : μ)
  | ordered (ordered : Bool)

structure ListEdit (μ : Type) where
  sourceIndex : Int
  change : ListChange μ

inductive ModelOp (π μ : Type)
  | setParagraphStyle (addr : GigaBlockAddr) (patch : π)
  | setListLevel (addr : GigaBlockAddr) (level : Int)
  | setListMarker (addr : GigaBlockAddr) (marker : μ)
  | setListOrdered (addr : GigaBlockAddr) (ordered : Bool)

def ModelOp.addr : ModelOp π μ → GigaBlockAddr
  | .setParagraphStyle addr _ | .setListLevel addr _ | .setListMarker addr _
  | .setListOrdered addr _ => addr

def ModelOp.mapPatch {ψ : Type} (f : π → ψ) : ModelOp π μ → ModelOp ψ μ
  | .setParagraphStyle addr patch => .setParagraphStyle addr (f patch)
  | .setListLevel addr level => .setListLevel addr level
  | .setListMarker addr marker => .setListMarker addr marker
  | .setListOrdered addr ordered => .setListOrdered addr ordered

structure ApplyParagraphOpsResult (π μ : Type) where
  ops : List (ModelOp π μ)
  resolved : Nat
  unresolved : List Int

/-- The patches of a block are merged by `spread`, that is `{ ...prev, ...patch }`. -/
def mergePatches (spread : π → π → π) (map : AddrMap) (edits : List (ParagraphStyleEdit π)) :
    List (GigaBlockAddr × π) :=
  edits.foldl (fun byBlock edit =>
    match lookup edit.sourceIndex map with
    | none => byBlock
    | some addr =>
      upsert (fun e => e.1 = addr) (fun e => (addr, spread e.2 edit.patch)) (addr, edit.patch)
        byBlock) []

def listOp (map : AddrMap) (edit : ListEdit μ) : Option (ModelOp π μ) :=
  (lookup edit.sourceIndex map).map fun addr =>
    match edit.change with
    | .level level => .setListLevel addr level
    | .marker marker => .setListMarker addr marker
    | .ordered ordered => .setListOrdered addr ordered

/-- The ops that the engine is given. -/
def applyParagraphOps (spread : π → π → π) (model : GigaDocument)
    (paragraphEdits : List (ParagraphStyleEdit π)) (listEdits : List (ListEdit μ)) :
    ApplyParagraphOpsResult π μ :=
  let addrMap := buildSourceIndexAddrMap model
  let listAddrMap := buildListAddrMap model
  let ops :=
    (mergePatches spread addrMap paragraphEdits).map (fun e => .setParagraphStyle e.1 e.2) ++
      listEdits.filterMap (listOp listAddrMap)
  { ops
    resolved := ops.length
    unresolved :=
      (paragraphEdits.filter fun e => (lookup e.sourceIndex addrMap).isNone).map
          ParagraphStyleEdit.sourceIndex ++
        (listEdits.filter fun e => (lookup e.sourceIndex listAddrMap).isNone).map
          ListEdit.sourceIndex }

/-! ## Where the edits were made -/

/-- An edit and the block of the run that it was made on. -/
structure Issued (ε : Type) where
  edit : ε
  home : GigaBlockAddr

/-- A patch with the blocks of the edits that are merged in it. -/
abbrev HomedPatch (π : Type) := π × List GigaBlockAddr

def spreadHomed (spread : π → π → π) (a b : HomedPatch π) : HomedPatch π :=
  (spread a.1 b.1, a.2 ++ b.2)

def Issued.homed (e : Issued (ParagraphStyleEdit π)) : ParagraphStyleEdit (HomedPatch π) :=
  ⟨e.edit.sourceIndex, (e.edit.patch, [e.home])⟩

theorem mergePatches_append_singleton (spread : π → π → π) (map : AddrMap)
    (edits : List (ParagraphStyleEdit π)) (edit : ParagraphStyleEdit π) :
    mergePatches spread map (edits ++ [edit]) =
      match lookup edit.sourceIndex map with
      | none => mergePatches spread map edits
      | some addr =>
        upsert (fun e => e.1 = addr) (fun e => (addr, spread e.2 edit.patch)) (addr, edit.patch)
          (mergePatches spread map edits) := by
  rw [mergePatches, List.foldl_append]
  rfl

theorem mergePatches_homed (spread : π → π → π) (map : AddrMap)
    (edits : List (Issued (ParagraphStyleEdit π))) :
    (mergePatches (spreadHomed spread) map (edits.map Issued.homed)).map
        (fun e => (e.1, e.2.1)) =
      mergePatches spread map (edits.map Issued.edit) := by
  induction edits using List.reverseRecOn with
  | nil => rfl
  | append_singleton edits edit ih =>
    have same : edit.homed.sourceIndex = edit.edit.sourceIndex := rfl
    rw [List.map_append, List.map_append, List.map_singleton, List.map_singleton,
      mergePatches_append_singleton, mergePatches_append_singleton, ← ih, same]
    cases lookup edit.edit.sourceIndex map with
    | none => rfl
    | some addr =>
      apply map_upsert
      · intro _
        rfl
      · intro _
        rfl

/-- The homes change nothing of the ops. -/
theorem applyParagraphOps_homed (spread : π → π → π) (model : GigaDocument)
    (paragraphs : List (Issued (ParagraphStyleEdit π))) (lists : List (ListEdit μ)) :
    (applyParagraphOps (spreadHomed spread) model (paragraphs.map Issued.homed) lists).ops.map
        (ModelOp.mapPatch Prod.fst) =
      (applyParagraphOps spread model (paragraphs.map Issued.edit) lists).ops := by
  have listOps : ∀ (map : AddrMap) (edit : ListEdit μ),
      (listOp map edit : Option (ModelOp (HomedPatch π) μ)).map (ModelOp.mapPatch Prod.fst) =
        listOp map edit := by
    intro map edit
    rw [listOp, listOp, Option.map_map]
    congr 1
    funext addr
    cases edit.change <;> rfl
  simp only [applyParagraphOps]
  rw [List.map_append, List.map_map, List.map_filterMap, ← mergePatches_homed, List.map_map]
  simp only [listOps]
  rfl

/-- The block that the index of an edit leads to. -/
def Issued.block (map : AddrMap) (e : Issued (ParagraphStyleEdit π)) : Option GigaBlockAddr :=
  lookup e.edit.sourceIndex map

/-- The homes of the edits of each block. -/
theorem homes_mergePatches (spread : π → π → π) (map : AddrMap)
    (edits : List (Issued (ParagraphStyleEdit π))) :
    (mergePatches (spreadHomed spread) map (edits.map Issued.homed)).map
        (fun e => (e.1, e.2.2)) =
      (group (Issued.block map) edits).map fun g => (g.1, g.2.map Issued.home) := by
  induction edits using List.reverseRecOn with
  | nil => rfl
  | append_singleton edits edit ih =>
    have same : edit.homed.sourceIndex = edit.edit.sourceIndex := rfl
    rw [List.map_append, List.map_singleton, mergePatches_append_singleton, same]
    cases found : lookup edit.edit.sourceIndex map with
    | none => rw [@group_of_none _ _ _ (Issued.block map) _ _ found, ← ih]
    | some addr =>
      let homes (e : GigaBlockAddr × List GigaBlockAddr) := (addr, e.2 ++ [edit.home])
      rw [@group_of_some _ _ _ (Issued.block map) _ _ _ found, enter]
      trans upsert (fun e => e.1 = addr) homes (addr, [edit.home])
        ((group (Issued.block map) edits).map fun g => (g.1, g.2.map Issued.home))
      · rw [← ih]
        apply map_upsert
        · intro _
          rfl
        · intro _
          rfl
      · symm
        apply map_upsert
        · intro _
          rfl
        · intro g
          simp only [homes, List.map_append, List.map_singleton]

/-- Which edits are merged for a block: those whose index leads to it. -/
theorem mem_homes {spread : π → π → π} {map : AddrMap}
    {edits : List (Issued (ParagraphStyleEdit π))} {addr home : GigaBlockAddr} :
    (∃ patch homes, (addr, (patch, homes)) ∈
        mergePatches (spreadHomed spread) map (edits.map Issued.homed) ∧ home ∈ homes) ↔
      ∃ e ∈ edits, lookup e.edit.sourceIndex map = some addr ∧ e.home = home := by
  have listed : ∀ homes, (∃ patch, (addr, (patch, homes)) ∈
      mergePatches (spreadHomed spread) map (edits.map Issued.homed)) ↔
      ∃ g ∈ group (Issued.block map) edits, g.1 = addr ∧ g.2.map Issued.home = homes := by
    intro homes
    have mem := congrArg ((addr, homes) ∈ ·) (homes_mergePatches spread map edits)
    simpa [List.mem_map] using mem
  constructor
  · rintro ⟨patch, homes, entry, here⟩
    obtain ⟨g, grouped, rfl, rfl⟩ := (listed homes).mp ⟨patch, entry⟩
    obtain ⟨e, inside, rfl⟩ := List.mem_map.mp here
    obtain ⟨queued, found⟩ := mem_group.mp ⟨g, grouped, rfl, inside⟩
    exact ⟨e, queued, found, rfl⟩
  · rintro ⟨e, queued, found, rfl⟩
    have leads : Issued.block map e = some addr := found
    obtain ⟨g, grouped, at_addr, inside⟩ := mem_group.mpr ⟨queued, leads⟩
    obtain ⟨patch, entry⟩ := (listed _).mpr ⟨g, grouped, at_addr, rfl⟩
    exact ⟨patch, _, entry, List.mem_map.mpr ⟨e, inside, rfl⟩⟩

/-- Every op addresses the block that its edits were made on. -/
structure BakedAtHome (spread : π → π → π) (model : GigaDocument)
    (paragraphs : List (Issued (ParagraphStyleEdit π))) (lists : List (Issued (ListEdit μ))) :
    Prop where
  paragraphs : ∀ addr patch homes,
    ModelOp.setParagraphStyle addr (patch, homes) ∈
      (applyParagraphOps (spreadHomed spread) model (paragraphs.map Issued.homed)
        (lists.map Issued.edit)).ops → ∀ home ∈ homes, addr = home
  lists : ∀ e ∈ lists, ∀ op : ModelOp π μ,
    listOp (buildListAddrMap model) e.edit = some op → op.addr = e.home

theorem listOp_addr {map : AddrMap} {edit : ListEdit μ} {op : ModelOp π μ}
    (h : listOp map edit = some op) : lookup edit.sourceIndex map = some op.addr := by
  obtain ⟨addr, found, rfl⟩ := Option.map_eq_some_iff.mp h
  rw [found]
  cases edit.change <;> rfl

theorem exists_listOp {map : AddrMap} {edit : ListEdit μ} {addr : GigaBlockAddr}
    (found : lookup edit.sourceIndex map = some addr) :
    ∃ op : ModelOp π μ, listOp map edit = some op ∧ op.addr = addr := by
  rw [listOp, found]
  refine ⟨_, rfl, ?_⟩
  cases edit.change <;> rfl

theorem mem_paragraphOps {spread : π → π → π} {model : GigaDocument}
    {paragraphEdits : List (ParagraphStyleEdit π)} {listEdits : List (ListEdit μ)}
    {addr : GigaBlockAddr} {patch : π} :
    ModelOp.setParagraphStyle addr patch ∈
        (applyParagraphOps spread model paragraphEdits listEdits).ops ↔
      (addr, patch) ∈ mergePatches spread (buildSourceIndexAddrMap model) paragraphEdits := by
  simp only [applyParagraphOps, List.mem_append, List.mem_map, List.mem_filterMap]
  constructor
  · rintro (⟨e, mem, same⟩ | ⟨edit, -, same⟩)
    · cases same
      exact mem
    · obtain ⟨_, -, same⟩ := Option.map_eq_some_iff.mp same
      cases change : edit.change <;> rw [change] at same <;> cases same
  · intro mem
    exact Or.inl ⟨_, mem, rfl⟩

end

/-! ## A document of two pages -/

def plainRun (idx : Int) : Run := ⟨⟨some idx, none⟩, none⟩

def paragraphBlock (runs : List Run) : GigaBlock where
  kind := .paragraph
  body := ⟨runs.map .run, none⟩
  para := none
  items := []
  rows := none
  colWidths := []
  ordered := false
  marker := none
  frame := none

/-- A paragraph of one run on each page. -/
def twoPages (first second : Int) : GigaDocument :=
  ⟨[⟨[⟨[paragraphBlock [plainRun first]]⟩, ⟨[paragraphBlock [plainRun second]]⟩]⟩]⟩

theorem hasRun_paragraphBlock {runs : List Run} {run : Run}
    (has : (paragraphBlock runs).HasRun run) : run ∈ runs := by
  cases has with
  | body here inner =>
    obtain ⟨other, mem, rfl⟩ := List.mem_map.mp here
    cases inner
    exact mem
  | para here => cases here
  | nested here => cases here

theorem unique_of_runs {runs : List Run}
    (distinct : ∀ run ∈ runs, ∀ run' ∈ runs, ∀ idx, run.Carries idx → run'.Carries idx →
      run = run') : GigaPage.Unique ⟨[paragraphBlock runs]⟩ := by
  intro i j block block' run run' idx here here' has has' carries carries'
  obtain ⟨rfl, rfl⟩ : i = 0 ∧ paragraphBlock runs = block := by
    simpa [List.getElem?_singleton] using here
  obtain ⟨rfl, rfl⟩ : j = 0 ∧ paragraphBlock runs = block' := by
    simpa [List.getElem?_singleton] using here'
  exact ⟨rfl, distinct run (hasRun_paragraphBlock has) run' (hasRun_paragraphBlock has') idx carries
    carries'⟩

theorem unique_of_one_run (run : Run) : GigaPage.Unique ⟨[paragraphBlock [run]]⟩ := by
  apply unique_of_runs
  intro a first b second _ _ _
  rw [List.mem_singleton.mp first, List.mem_singleton.mp second]

theorem twoPages_unique (first second : Int) : (twoPages first second).UniqueOnPages := by
  intro sec page p here
  obtain ⟨s, inDoc, inSection⟩ := Option.bind_eq_some_iff.mp here
  obtain ⟨-, rfl⟩ : sec = 0 ∧ _ = s := by simpa [twoPages, List.getElem?_singleton] using inDoc
  match page with
  | 0 =>
    cases inSection
    exact unique_of_one_run (plainRun first)
  | 1 =>
    cases inSection
    exact unique_of_one_run (plainRun second)
  | page + 2 => cases inSection

theorem twoPages_block {first second : Int} {addr : GigaBlockAddr} {block : GigaBlock}
    (here : (twoPages first second).block? addr = some block) :
    addr = ⟨0, 0, 0⟩ ∧ block = paragraphBlock [plainRun first] ∨
      addr = ⟨0, 1, 0⟩ ∧ block = paragraphBlock [plainRun second] := by
  have mem := ((twoPages first second).mem_walk).mpr here
  have walk : (twoPages first second).walk =
      [(⟨0, 0, 0⟩, paragraphBlock [plainRun first]),
        (⟨0, 1, 0⟩, paragraphBlock [plainRun second])] := rfl
  rw [walk] at mem
  simpa using mem

theorem mem_collect_plainRun {idx n : Int}
    (mem : idx ∈ collectBlockSourceIndices (paragraphBlock [plainRun n])) : idx = n := by
  obtain ⟨run, reads, scalar⟩ := mem_collectBlockSourceIndices.mp mem
  have plain := List.mem_singleton.mp (hasRun_paragraphBlock reads.hasRun)
  obtain ⟨found, -⟩ := Option.filter_eq_some_iff.mp (plain ▸ scalar)
  cases found
  rfl

end GigaPdf
