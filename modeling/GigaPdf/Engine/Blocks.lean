import GigaPdf.Lib.FirstWriter
import Mathlib.Data.Rat.Defs

/-!
# Blocks

The document model of the engine, as far as it is read by the two walks over its blocks, and the
maps of `model-ops/index.ts` from the source indices of the runs to the addresses of their blocks.
Every field is read defensively: what is malformed is absent.
-/

namespace GigaPdf

open FirstWriter

/-! ## The model -/

structure RunBody where
  sourceIndex : Option Int
  sourceIndices : Option (List (Option Int))
deriving DecidableEq

/-- `wrapped` is the `v` of the run, which has a body of its own. -/
structure Run where
  flat : RunBody
  wrapped : Option RunBody
deriving DecidableEq

inductive Inline
  | run (run : Run)
  | br
  | link (children : List Inline)
  | other

inductive Alignment
  | left | center | right | justify
deriving DecidableEq

inductive LineHeight
  | multiple (v : ℚ)
  | other
deriving DecidableEq

inductive Direction
  | rtl | ltr
deriving DecidableEq

structure ParagraphStyle where
  align : Option Alignment
  lineHeight : Option LineHeight
  firstLinePt : Option ℚ
  indentLeftPt : Option ℚ
  spaceBeforePt : Option ℚ
  spaceAfterPt : Option ℚ
  softBreaks : Option (List (Option Bool))
  direction : Option Direction

structure ParagraphBody where
  runs : List Inline
  style : Option ParagraphStyle

structure BlockFrame where
  x : Option ℚ
  y : Option ℚ
  w : Option ℚ
  h : Option ℚ

inductive BlockKind
  | paragraph | heading | list | table | other
deriving DecidableEq

section
variable (β : Type)

structure ListItem where
  level : Option Int
  blocks : List β

structure TableCell where
  colSpan : Option Int
  rowSpan : Option Int
  blocks : List β

structure TableRow where
  height : Option ℚ
  cells : List (TableCell β)

end

/-- `body`, `para`, `items`, `rows` and the fields after them are what the `v` of the block has. -/
structure GigaBlock where
  kind : BlockKind
  body : ParagraphBody
  para : Option ParagraphBody
  items : List (ListItem GigaBlock)
  rows : Option (List (TableRow GigaBlock))
  colWidths : List (Option ℚ)
  ordered : Bool
  marker : Option String
  frame : Option BlockFrame

structure GigaPage where
  blocks : List GigaBlock

structure GigaSection where
  pages : List GigaPage

structure GigaDocument where
  sections : List GigaSection

/-! ## The runs of a block -/

/-- Every number that stands in the run as an index. -/
def RunBody.numbers (body : RunBody) : List Int :=
  body.sourceIndex.toList ++ (body.sourceIndices.getD []).filterMap id

/-- The run has the index, wherever it stands. A negative number is no index. -/
def Run.Carries (run : Run) (idx : Int) : Prop :=
  0 ≤ idx ∧ (idx ∈ run.flat.numbers ∨ ∃ body, run.wrapped = some body ∧ idx ∈ body.numbers)

inductive Inline.HasRun (r : Run) : Inline → Prop
  | run : HasRun r (.run r)
  | link {children inline} : inline ∈ children → inline.HasRun r → HasRun r (.link children)

/-- The blocks in the items and in the cells. -/
def GigaBlock.nested (block : GigaBlock) : List GigaBlock :=
  block.items.flatMap ListItem.blocks ++
    (block.rows.getD []).flatMap fun row => row.cells.flatMap TableCell.blocks

inductive GigaBlock.HasRun (r : Run) : GigaBlock → Prop
  | body {block inline} : inline ∈ block.body.runs → inline.HasRun r → HasRun r block
  | para {block : GigaBlock} {body : ParagraphBody} {inline} : block.para = some body →
    inline ∈ body.runs → inline.HasRun r → HasRun r block
  | nested {block inner} : inner ∈ block.nested → inner.HasRun r → HasRun r block

/-- An index stands in one block of the page, and in one run of it. -/
def GigaPage.Unique (page : GigaPage) : Prop :=
  ∀ (i j : Nat) (block block' : GigaBlock) (run run' : Run) (idx : Int),
    page.blocks[i]? = some block → page.blocks[j]? = some block' →
    block.HasRun run → block'.HasRun run' → run.Carries idx → run'.Carries idx →
    i = j ∧ run = run'

/-! ## The indices that the walk collects -/

/-- The scalar index of a run, flat or wrapped. -/
def Run.sourceIndex (run : Run) : Option Int :=
  (run.flat.sourceIndex.or (run.wrapped.bind RunBody.sourceIndex)).filter fun idx => 0 ≤ idx

mutual

def collectInline : Inline → List Int
  | .run run => run.sourceIndex.toList
  | .link children => collectRunSourceIndices children
  | .br | .other => []

def collectRunSourceIndices : List Inline → List Int
  | [] => []
  | inline :: runs => collectInline inline ++ collectRunSourceIndices runs

end

def paragraphRuns (block : GigaBlock) : List Inline := block.body.runs

def headingRuns (block : GigaBlock) : List Inline :=
  (block.para.map ParagraphBody.runs).getD []

mutual

def collectBlockSourceIndices : GigaBlock → List Int
  | ⟨.paragraph, body, _, _, _, _, _, _, _⟩ => collectRunSourceIndices body.runs
  | ⟨.heading, _, para, _, _, _, _, _, _⟩ =>
    collectRunSourceIndices ((para.map ParagraphBody.runs).getD [])
  | ⟨.list, _, _, items, _, _, _, _, _⟩ => collectItems items
  | _ => []

def collectItems : List (ListItem GigaBlock) → List Int
  | [] => []
  | ⟨_, blocks⟩ :: items => collectBlocks blocks ++ collectItems items

def collectBlocks : List GigaBlock → List Int
  | [] => []
  | block :: blocks => collectBlockSourceIndices block ++ collectBlocks blocks

end

theorem Run.carries_sourceIndex {run : Run} {idx : Int} (h : run.sourceIndex = some idx) :
    run.Carries idx := by
  obtain ⟨found, bound⟩ := Option.filter_eq_some_iff.mp h
  refine ⟨by simpa using bound, ?_⟩
  obtain flat | ⟨-, wrapped⟩ := Option.or_eq_some_iff.mp found
  · exact Or.inl (List.mem_append_left _ (by simp [flat]))
  · obtain ⟨body, here, scalar⟩ := Option.bind_eq_some_iff.mp wrapped
    exact Or.inr ⟨body, here, List.mem_append_left _ (by simp [scalar])⟩

mutual

theorem mem_collectInline : ∀ {inline : Inline} {idx : Int}, idx ∈ collectInline inline →
    ∃ run, inline.HasRun run ∧ run.sourceIndex = some idx
  | .run run, idx, mem => ⟨run, .run, by simpa [collectInline] using mem⟩
  | .link children, idx, mem => by
    obtain ⟨inline, child, run, has, scalar⟩ := mem_collectRunSourceIndices mem
    exact ⟨run, .link child has, scalar⟩

/-- What is collected is the scalar index of a run. -/
theorem mem_collectRunSourceIndices : ∀ {runs : List Inline} {idx : Int},
    idx ∈ collectRunSourceIndices runs →
    ∃ inline ∈ runs, ∃ run, inline.HasRun run ∧ run.sourceIndex = some idx
  | inline :: runs, idx, mem => by
    obtain first | rest := List.mem_append.mp mem
    · exact ⟨inline, List.mem_cons_self, mem_collectInline first⟩
    · obtain ⟨next, later, found⟩ := mem_collectRunSourceIndices rest
      exact ⟨next, List.mem_cons_of_mem _ later, found⟩

end

theorem collectRunSourceIndices_eq (runs : List Inline) :
    collectRunSourceIndices runs = runs.flatMap collectInline := by
  induction runs with
  | nil => rfl
  | cons inline runs ih => rw [collectRunSourceIndices, ih, List.flatMap_cons]

theorem collectBlocks_eq (blocks : List GigaBlock) :
    collectBlocks blocks = blocks.flatMap collectBlockSourceIndices := by
  induction blocks with
  | nil => rfl
  | cons block blocks ih => rw [collectBlocks, ih, List.flatMap_cons]

theorem collectItems_eq (items : List (ListItem GigaBlock)) :
    collectItems items = items.flatMap fun item => collectBlocks item.blocks := by
  induction items with
  | nil => rfl
  | cons item items ih => rw [collectItems, ih, List.flatMap_cons]

theorem mem_collectRunSourceIndices_of {runs : List Inline} {inline : Inline} {run : Run}
    {idx : Int} (mem : inline ∈ runs) (has : inline.HasRun run)
    (scalar : run.sourceIndex = some idx) : idx ∈ collectRunSourceIndices runs := by
  rw [collectRunSourceIndices_eq, List.mem_flatMap]
  refine ⟨inline, mem, ?_⟩
  clear mem
  induction has with
  | run => simp [collectInline, scalar]
  | link child _ ih =>
    rw [collectInline, collectRunSourceIndices_eq, List.mem_flatMap]
    exact ⟨_, child, ih⟩

/-- The walk by the kind of the block. -/
theorem collectBlockSourceIndices_eq (block : GigaBlock) :
    collectBlockSourceIndices block =
      match block.kind with
      | .paragraph => collectRunSourceIndices (paragraphRuns block)
      | .heading => collectRunSourceIndices (headingRuns block)
      | .list => (block.items.flatMap ListItem.blocks).flatMap collectBlockSourceIndices
      | .table | .other => [] := by
  obtain ⟨kind, body, para, items, rows, widths, ordered, marker, frame⟩ := block
  cases kind with
  | paragraph | heading | table | other => rfl
  | list =>
    rw [collectBlockSourceIndices, collectItems_eq]
    simp only [collectBlocks_eq, List.flatMap_assoc]

/-- The run stands where the walk looks: in a paragraph, in the `para` of a heading, or in such a
block in a list. -/
inductive GigaBlock.ReadsRun (r : Run) : GigaBlock → Prop
  | paragraph {block inline} : block.kind = .paragraph → inline ∈ block.body.runs →
    inline.HasRun r → ReadsRun r block
  | heading {block : GigaBlock} {body : ParagraphBody} {inline} : block.kind = .heading →
    block.para = some body → inline ∈ body.runs → inline.HasRun r → ReadsRun r block
  | list {block inner} : block.kind = .list → inner ∈ block.items.flatMap ListItem.blocks →
    inner.ReadsRun r → ReadsRun r block

theorem GigaBlock.ReadsRun.hasRun {block : GigaBlock} {run : Run} (reads : block.ReadsRun run) :
    block.HasRun run := by
  induction reads with
  | paragraph _ here has => exact .body here has
  | heading _ para here has => exact .para para here has
  | list _ inner _ ih => exact .nested (List.mem_append_left _ inner) ih

mutual

theorem mem_collectBlock_reads : ∀ {block : GigaBlock} {idx : Int},
    idx ∈ collectBlockSourceIndices block → ∃ run, block.ReadsRun run ∧ run.sourceIndex = some idx
  | ⟨.paragraph, body, para, items, rows, widths, ordered, marker, frame⟩, idx, mem => by
    obtain ⟨inline, here, run, has, scalar⟩ := mem_collectRunSourceIndices mem
    exact ⟨run, .paragraph rfl here has, scalar⟩
  | ⟨.heading, body, some para, items, rows, widths, ordered, marker, frame⟩, idx, mem => by
    obtain ⟨inline, here, run, has, scalar⟩ := mem_collectRunSourceIndices mem
    exact ⟨run, .heading rfl rfl here has, scalar⟩
  | ⟨.heading, body, none, items, rows, widths, ordered, marker, frame⟩, idx, mem => by
    cases mem
  | ⟨.list, body, para, items, rows, widths, ordered, marker, frame⟩, idx, mem => by
    obtain ⟨item, here, inner, nested, run, reads, scalar⟩ := mem_collectItems mem
    have inside : inner ∈ items.flatMap ListItem.blocks := List.mem_flatMap.mpr ⟨item, here, nested⟩
    exact ⟨run, .list rfl inside reads, scalar⟩
  | ⟨.table, body, para, items, rows, widths, ordered, marker, frame⟩, idx, mem => by cases mem
  | ⟨.other, body, para, items, rows, widths, ordered, marker, frame⟩, idx, mem => by cases mem

theorem mem_collectItems : ∀ {items : List (ListItem GigaBlock)} {idx : Int},
    idx ∈ collectItems items → ∃ item ∈ items, ∃ block ∈ item.blocks, ∃ run,
      block.ReadsRun run ∧ run.sourceIndex = some idx
  | ⟨level, blocks⟩ :: items, idx, mem => by
    obtain first | rest := List.mem_append.mp mem
    · exact ⟨⟨level, blocks⟩, List.mem_cons_self, mem_collectBlocks first⟩
    · obtain ⟨item, later, found⟩ := mem_collectItems rest
      exact ⟨item, List.mem_cons_of_mem _ later, found⟩

theorem mem_collectBlocks : ∀ {blocks : List GigaBlock} {idx : Int},
    idx ∈ collectBlocks blocks → ∃ block ∈ blocks, ∃ run,
      block.ReadsRun run ∧ run.sourceIndex = some idx
  | block :: blocks, idx, mem => by
    obtain first | rest := List.mem_append.mp mem
    · exact ⟨block, List.mem_cons_self, mem_collectBlock_reads first⟩
    · obtain ⟨next, later, found⟩ := mem_collectBlocks rest
      exact ⟨next, List.mem_cons_of_mem _ later, found⟩

end

/-- The walk collects the scalar indices of the runs where it looks. -/
theorem mem_collectBlockSourceIndices {block : GigaBlock} {idx : Int} :
    idx ∈ collectBlockSourceIndices block ↔
      ∃ run, block.ReadsRun run ∧ run.sourceIndex = some idx := by
  constructor
  · exact mem_collectBlock_reads
  · rintro ⟨run, reads, scalar⟩
    induction reads with
    | paragraph kind here has =>
      rw [collectBlockSourceIndices_eq, kind]
      exact mem_collectRunSourceIndices_of here has scalar
    | heading kind para here has =>
      rw [collectBlockSourceIndices_eq, kind]
      apply mem_collectRunSourceIndices_of _ has scalar
      rw [headingRuns, para]
      exact here
    | list kind inner _ ih =>
      rw [collectBlockSourceIndices_eq, kind]
      exact List.mem_flatMap.mpr ⟨_, inner, ih⟩

/-! ## Addresses -/

/-- `[section, page, index]`. -/
structure GigaBlockAddr where
  sec : Nat
  page : Nat
  index : Nat
deriving DecidableEq

/-- The block comes earlier in the document. -/
def GigaBlockAddr.Before (a b : GigaBlockAddr) : Prop :=
  a.sec < b.sec ∨ a.sec = b.sec ∧ (a.page < b.page ∨ a.page = b.page ∧ a.index < b.index)

/-- The block is on an earlier page. -/
def GigaBlockAddr.PageBefore (a b : GigaBlockAddr) : Prop :=
  a.sec < b.sec ∨ a.sec = b.sec ∧ a.page < b.page

namespace GigaDocument

variable (model : GigaDocument)

def page? (sec page : Nat) : Option GigaPage := model.sections[sec]?.bind fun s => s.pages[page]?

def block? (addr : GigaBlockAddr) : Option GigaBlock :=
  (model.page? addr.sec addr.page).bind fun page => page.blocks[addr.index]?

/-- The blocks in the order of the walk. -/
def walk : List (GigaBlockAddr × GigaBlock) :=
  model.sections.zipIdx.flatMap fun sec =>
    sec.1.pages.zipIdx.flatMap fun page =>
      page.1.blocks.zipIdx.map fun block => (⟨sec.2, page.2, block.2⟩, block.1)

/-- Indices are numbered per page. -/
def UniqueOnPages : Prop := ∀ sec page p, model.page? sec page = some p → p.Unique

theorem mem_walk {addr : GigaBlockAddr} {block : GigaBlock} :
    (addr, block) ∈ model.walk ↔ model.block? addr = some block := by
  simp only [walk, List.mem_flatMap, List.mem_map, List.mem_zipIdx_iff_getElem?, block?, page?,
    Option.bind_eq_some_iff]
  constructor
  · rintro ⟨⟨sec, s⟩, inDoc, ⟨page, p⟩, inSection, ⟨block', i⟩, inPage, same⟩
    cases same
    exact ⟨page, ⟨sec, inDoc, inSection⟩, inPage⟩
  · rintro ⟨page, ⟨sec, inDoc, inSection⟩, inPage⟩
    exact ⟨(sec, addr.sec), inDoc, (page, addr.page), inSection, (block, addr.index), inPage, rfl⟩

theorem walk_ordered : model.walk.Pairwise fun a b => a.1.Before b.1 := by
  have blocks : ∀ (s p : Nat) (page : GigaPage),
      (page.blocks.zipIdx.map fun block => ((⟨s, p, block.2⟩ : GigaBlockAddr), block.1)).Pairwise
        fun a b => a.1.Before b.1 := by
    intro s p page
    rw [List.pairwise_map]
    apply (pairwise_zipIdx page.blocks 0).imp
    intro a b lt
    exact Or.inr ⟨rfl, Or.inr ⟨rfl, lt⟩⟩
  rw [walk, List.pairwise_flatMap]
  constructor
  · intro sec _
    rw [List.pairwise_flatMap]
    constructor
    · intro page _
      exact blocks sec.2 page.2 page.1
    · apply (pairwise_zipIdx sec.1.pages 0).imp
      intro page page' lt a inPage b inPage'
      obtain ⟨_, -, rfl⟩ := List.mem_map.mp inPage
      obtain ⟨_, -, rfl⟩ := List.mem_map.mp inPage'
      exact Or.inr ⟨rfl, Or.inl lt⟩
  · apply (pairwise_zipIdx model.sections 0).imp
    intro sec sec' lt a inSection b inSection'
    obtain ⟨_, -, inPage⟩ := List.mem_flatMap.mp inSection
    obtain ⟨_, -, inPage'⟩ := List.mem_flatMap.mp inSection'
    obtain ⟨_, -, rfl⟩ := List.mem_map.mp inPage
    obtain ⟨_, -, rfl⟩ := List.mem_map.mp inPage'
    exact Or.inl lt

end GigaDocument

abbrev AddrMap := List (Int × GigaBlockAddr)

def indexBlock (block : GigaBlock) (addr : GigaBlockAddr) (map : AddrMap) : AddrMap :=
  match block.kind with
  | .paragraph => record (collectRunSourceIndices (paragraphRuns block)) addr map
  | .heading => record (collectRunSourceIndices (headingRuns block)) addr map
  | .list => record (collectBlockSourceIndices block) addr map
  | .table | .other => map

def indexListBlock (block : GigaBlock) (addr : GigaBlockAddr) (map : AddrMap) : AddrMap :=
  if block.kind ≠ .list then map else record (collectBlockSourceIndices block) addr map

def buildSourceIndexAddrMap (model : GigaDocument) : AddrMap :=
  model.walk.foldl (fun map e => indexBlock e.2 e.1 map) []

def buildListAddrMap (model : GigaDocument) : AddrMap :=
  model.walk.foldl (fun map e => indexListBlock e.2 e.1 map) []

/-- What a list block records. -/
def listIndices (block : GigaBlock) : List Int :=
  if block.kind = .list then collectBlockSourceIndices block else []

theorem indexBlock_eq (block : GigaBlock) (addr : GigaBlockAddr) (map : AddrMap) :
    indexBlock block addr map = record (collectBlockSourceIndices block) addr map := by
  rw [indexBlock, collectBlockSourceIndices_eq]
  cases block.kind <;> rfl

theorem indexListBlock_eq (block : GigaBlock) (addr : GigaBlockAddr) (map : AddrMap) :
    indexListBlock block addr map = record (listIndices block) addr map := by
  rw [indexListBlock, listIndices]
  by_cases list : block.kind = .list
  · simp [list]
  · simp [list, record]

theorem lookup_buildSourceIndexAddrMap (model : GigaDocument) (idx : Int) :
    lookup idx (buildSourceIndexAddrMap model) =
      (model.walk.find? fun e => idx ∈ collectBlockSourceIndices e.2).map Prod.fst := by
  simp only [buildSourceIndexAddrMap, indexBlock_eq]
  exact lookup_foldl_record (fun e => collectBlockSourceIndices e.2) Prod.fst idx model.walk

theorem lookup_buildListAddrMap (model : GigaDocument) (idx : Int) :
    lookup idx (buildListAddrMap model) =
      (model.walk.find? fun e => idx ∈ listIndices e.2).map Prod.fst := by
  simp only [buildListAddrMap, indexListBlock_eq]
  exact lookup_foldl_record (fun e => listIndices e.2) Prod.fst idx model.walk

/-! ## The first block that records an index -/

/-- No other block records the index, but for blocks on later pages when this one records it too. -/
def RecordedHere (records : GigaBlock → List Int) (model : GigaDocument) (idx : Int)
    (home : GigaBlockAddr) : Prop :=
  ∀ addr block, model.block? addr = some block → idx ∈ records block →
    addr = home ∨ home.PageBefore addr ∧ ∃ own, model.block? home = some own ∧ idx ∈ records own

/-- Blocks of one page with one index are one block. -/
theorem GigaDocument.UniqueOnPages.same_block {model : GigaDocument} (unique : model.UniqueOnPages)
    {addr addr' : GigaBlockAddr} {block block' : GigaBlock} {run run' : Run} {idx : Int}
    (here : model.block? addr = some block) (here' : model.block? addr' = some block')
    (sec : addr.sec = addr'.sec) (page : addr.page = addr'.page) (has : block.HasRun run)
    (has' : block'.HasRun run') (carries : run.Carries idx) (carries' : run'.Carries idx) :
    addr = addr' ∧ run = run' := by
  obtain ⟨p, samePage, inPage⟩ := Option.bind_eq_some_iff.mp here
  obtain ⟨p', samePage', inPage'⟩ := Option.bind_eq_some_iff.mp here'
  rw [← sec, ← page, samePage] at samePage'
  cases samePage'
  obtain ⟨index, once⟩ :=
    unique _ _ p samePage _ _ _ _ _ _ _ inPage inPage' has has' carries carries'
  obtain ⟨s, q, i⟩ := addr
  obtain ⟨s', q', i'⟩ := addr'
  cases sec
  cases page
  cases index
  exact ⟨rfl, once⟩

section
variable {records : GigaBlock → List Int} {model : GigaDocument} {idx : Int}
  {home : GigaBlockAddr}

/-- The index leads to the block and to no other, where it is unique on each page. -/
theorem find?_home_iff (unique : model.UniqueOnPages)
    (carried : ∀ block, idx ∈ records block → ∃ run, block.HasRun run ∧ run.Carries idx) :
    (∀ addr, (model.walk.find? fun e => idx ∈ records e.2).map Prod.fst = some addr →
      addr = home) ↔ RecordedHere records model idx home := by
  constructor
  · intro leads addr block here recorded
    have mem := (model.mem_walk).mpr here
    cases found : model.walk.find? fun e => idx ∈ records e.2 with
    | none =>
      have refused := List.find?_eq_none.mp found _ mem
      simp [recorded] at refused
    | some first =>
      obtain ⟨first, own⟩ := first
      have same : first = home := leads first (by rw [found]; rfl)
      subst same
      have ownRecorded : idx ∈ records own := by simpa using List.find?_some found
      have ownHere := (model.mem_walk).mp (List.mem_of_find?_eq_some found)
      obtain same | before := find?_first model.walk_ordered found mem (by simpa using recorded)
      · cases same
        exact Or.inl rfl
      · obtain earlier | ⟨sec, earlier | ⟨page, index⟩⟩ := before
        · exact Or.inr ⟨Or.inl earlier, own, ownHere, ownRecorded⟩
        · exact Or.inr ⟨Or.inr ⟨sec, earlier⟩, own, ownHere, ownRecorded⟩
        · obtain ⟨run, has, carries⟩ := carried own ownRecorded
          obtain ⟨run', has', carries'⟩ := carried block recorded
          have once := unique.same_block ownHere here sec page has has' carries carries'
          exact Or.inl once.1.symm
  · intro here addr found
    obtain ⟨⟨first, block⟩, isFirst, rfl⟩ := Option.map_eq_some_iff.mp found
    have recorded : idx ∈ records block := by simpa using List.find?_some isFirst
    have inDoc := (model.mem_walk).mp (List.mem_of_find?_eq_some isFirst)
    obtain same | ⟨later, own, ownHere, ownRecorded⟩ := here first block inDoc recorded
    · exact same
    · have mem := (model.mem_walk).mpr ownHere
      obtain same | before := find?_first model.walk_ordered isFirst mem (by simpa using ownRecorded)
      · exact congrArg Prod.fst same
      · simp only [GigaBlockAddr.Before] at before
        simp only [GigaBlockAddr.PageBefore] at later
        omega

/-- The index leads to the block when the block records it, and no block of an earlier page. -/
theorem find?_eq_home_iff (unique : model.UniqueOnPages)
    (carried : ∀ block, idx ∈ records block → ∃ run, block.HasRun run ∧ run.Carries idx)
    {own : GigaBlock} (ownHere : model.block? home = some own) :
    (model.walk.find? fun e => idx ∈ records e.2).map Prod.fst = some home ↔
      idx ∈ records own ∧
        ∀ addr block, model.block? addr = some block → idx ∈ records block →
          ¬addr.PageBefore home := by
  constructor
  · intro found
    obtain ⟨⟨first, block⟩, isFirst, rfl⟩ := Option.map_eq_some_iff.mp found
    have inDoc := (model.mem_walk).mp (List.mem_of_find?_eq_some isFirst)
    rw [ownHere] at inDoc
    cases inDoc
    have recorded : idx ∈ records own := by simpa using List.find?_some isFirst
    refine ⟨recorded, fun addr block here recorded' early => ?_⟩
    have mem := (model.mem_walk).mpr here
    obtain same | before := find?_first model.walk_ordered isFirst mem (by simpa using recorded')
    · cases same
      simp only [GigaBlockAddr.PageBefore] at early
      omega
    · simp only [GigaBlockAddr.PageBefore] at early
      simp only [GigaBlockAddr.Before] at before
      omega
  · rintro ⟨recorded, none_earlier⟩
    have mem := (model.mem_walk).mpr ownHere
    cases found : model.walk.find? fun e => idx ∈ records e.2 with
    | none =>
      have refused := List.find?_eq_none.mp found _ mem
      simp [recorded] at refused
    | some first =>
      obtain ⟨first, block⟩ := first
      have leads : RecordedHere records model idx home := by
        intro addr block here recorded'
        have late := none_earlier addr block here recorded'
        by_cases samePage : home.sec = addr.sec ∧ home.page = addr.page
        · obtain ⟨run, has, carries⟩ := carried own recorded
          obtain ⟨run', has', carries'⟩ := carried block recorded'
          have once := unique.same_block ownHere here samePage.1 samePage.2 has has' carries carries'
          exact Or.inl once.1.symm
        · refine Or.inr ⟨?_, own, ownHere, recorded⟩
          simp only [GigaBlockAddr.PageBefore] at late ⊢
          omega
      have same := (find?_home_iff unique carried).mpr leads first (by rw [found]; rfl)
      rw [Option.map_some, same]

end

theorem carried_of_collected {block : GigaBlock} {idx : Int}
    (mem : idx ∈ collectBlockSourceIndices block) :
    ∃ run, block.HasRun run ∧ run.Carries idx := by
  obtain ⟨run, reads, scalar⟩ := mem_collectBlockSourceIndices.mp mem
  exact ⟨run, reads.hasRun, Run.carries_sourceIndex scalar⟩

theorem carried_of_listed {block : GigaBlock} {idx : Int} (mem : idx ∈ listIndices block) :
    ∃ run, block.HasRun run ∧ run.Carries idx := by
  rw [listIndices] at mem
  split at mem
  · exact carried_of_collected mem
  · cases mem

end GigaPdf
