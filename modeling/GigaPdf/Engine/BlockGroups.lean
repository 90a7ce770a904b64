import GigaPdf.Engine.ParagraphOps
import Mathlib.Algebra.GroupWithZero.Nat
import Mathlib.Algebra.Ring.Int.Defs
import Mathlib.Data.List.Pairwise

/-!
# Block groups

`block-extractor.ts` tells the editor which runs form a paragraph, a heading, a list or a table.
Its walk over the blocks reads more than that of `model-ops/index.ts`, by which the edits of these
runs find their block.
-/

namespace GigaPdf

open FirstWriter

/-! ## The indices that the editor gets -/

/-- The body that a run is read from. -/
def Run.body (run : Run) : RunBody := run.wrapped.getD run.flat

/-- The numbers in `source_indices`. -/
def RunBody.listed (body : RunBody) : List Int :=
  ((body.sourceIndices.getD []).filterMap id).filter fun idx => 0 ≤ idx

def inlineRunIndices : Inline → List Int
  | .run run =>
    if run.body.listed ≠ [] then run.body.listed
    else (run.body.sourceIndex.filter fun idx => 0 ≤ idx).toList
  | .br | .link _ | .other => []

def Run.indices (run : Run) : List Int := inlineRunIndices (.run run)

def paragraphBody (block : GigaBlock) : ParagraphBody :=
  if block.kind = .heading then block.para.getD block.body else block.body

def blockRuns (block : GigaBlock) : List Inline := (paragraphBody block).runs

/-- The lines that are closed, the current one, and all indices. -/
structure ParagraphLines where
  lines : List (List Int)
  current : List Int
  flat : List Int

namespace ParagraphLines

def closeLine (p : ParagraphLines) : ParagraphLines :=
  { p with lines := if p.current = [] then p.lines else p.lines ++ [p.current], current := [] }

def pushRun (p : ParagraphLines) (inline : Inline) : ParagraphLines :=
  { p with
    current := p.current ++ inlineRunIndices inline
    flat := p.flat ++ inlineRunIndices inline }

/-- Links within a link are not followed. -/
def push (p : ParagraphLines) : Inline → ParagraphLines
  | .br => p.closeLine
  | .run run => p.pushRun (.run run)
  | .link children => children.foldl pushRun p
  | .other => p

end ParagraphLines

def paragraphLines (block : GigaBlock) : ParagraphLines :=
  ((blockRuns block).foldl ParagraphLines.push ⟨[], [], []⟩).closeLine

/-- The paragraph formatting of a group. -/
structure GroupStyle where
  align : Option Alignment
  lineHeightMultiple : Option ℚ
  firstLineIndentPt : Option ℚ
  indentLeftPt : Option ℚ
  spaceBeforePt : Option ℚ
  spaceAfterPt : Option ℚ
  softBreaks : Option (List Bool)
  direction : Option Direction
  frame : Option (ℚ × ℚ × ℚ × ℚ)

def paragraphGroupStyle (block : GigaBlock) : GroupStyle :=
  let style := (paragraphBody block).style
  let nonZero (v : Option ℚ) : Option ℚ := v.filter fun n => n ≠ 0
  { align := style.bind ParagraphStyle.align
    lineHeightMultiple :=
      match style.bind ParagraphStyle.lineHeight with
      | some (.multiple v) => if 0 < v then some v else none
      | some .other | none => none
    firstLineIndentPt := nonZero (style.bind ParagraphStyle.firstLinePt)
    indentLeftPt := nonZero (style.bind ParagraphStyle.indentLeftPt)
    spaceBeforePt := nonZero (style.bind ParagraphStyle.spaceBeforePt)
    spaceAfterPt := nonZero (style.bind ParagraphStyle.spaceAfterPt)
    softBreaks :=
      (style.bind ParagraphStyle.softBreaks).bind fun breaks =>
        if breaks ≠ [] ∧ breaks.all Option.isSome then some (breaks.filterMap id) else none
    direction := style.bind ParagraphStyle.direction
    frame :=
      match block.frame with
      | some ⟨some x, some y, some w, some h⟩ => if 0 < w ∧ 0 < h then some (x, y, w, h) else none
      | _ => none }

/-- The runs of a block in a cell or an item. -/
def nestedBlockRuns (block : GigaBlock) : List Inline :=
  if block.kind = .heading then (block.para.map ParagraphBody.runs).getD [] else block.body.runs

def nestedSourceIndices (blocks : List GigaBlock) : List Int :=
  blocks.flatMap fun block => (nestedBlockRuns block).flatMap inlineRunIndices

/-! ## Tables -/

/-- A cell with its place in the grid. -/
structure GridCell where
  row : Nat
  col : Int
  colSpan : Int
  rowSpan : Int
  blocks : List GigaBlock

/-- A span is 1 at least. -/
def spanOf (span : Option Int) : Int := (span.filter fun n => 1 ≤ n).getD 1

def rowGrid (row : Nat) : Int → List (TableCell GigaBlock) → List GridCell
  | _, [] => []
  | col, cell :: cells =>
    ⟨row, col, spanOf cell.colSpan, spanOf cell.rowSpan, cell.blocks⟩ ::
      rowGrid row (col + spanOf cell.colSpan) cells

/-- Both walks number the cells alike. -/
def grid (rows : List (TableRow GigaBlock)) : List GridCell :=
  rows.zipIdx.flatMap fun row => rowGrid row.2 0 row.1.cells

structure TableCellInfo where
  row : Nat
  col : Int
  colSpan : Int
  rowSpan : Int
  sourceIndices : List Int

def GridCell.info (cell : GridCell) (sourceIndices : List GigaBlock → List Int) : TableCellInfo :=
  ⟨cell.row, cell.col, cell.colSpan, cell.rowSpan, sourceIndices cell.blocks⟩

def tableColCount (rows : List (TableRow GigaBlock)) (colWidths : List ℚ) : Int :=
  rows.foldl (fun count row => max count (row.cells.map fun cell => spanOf cell.colSpan).sum)
    colWidths.length

/-- A width that is no number is 0. -/
def colWidths (block : GigaBlock) : List ℚ := block.colWidths.map fun w => w.getD 0

structure PageBlockTable where
  rowCount : Nat
  colCount : Int
  colWidths : List ℚ
  rowHeights : List ℚ
  cells : List TableCellInfo

def tableStructure (block : GigaBlock) : Option PageBlockTable :=
  block.rows.map fun rows =>
    { rowCount := rows.length
      colCount := tableColCount rows (colWidths block)
      colWidths := colWidths block
      rowHeights := rows.map fun row => row.height.getD 0
      cells := (grid rows).map fun cell => cell.info nestedSourceIndices }

def tableResolvableRunCount (table : PageBlockTable) : Nat :=
  (table.cells.map fun cell => cell.sourceIndices.length).sum

/-! ## Lists -/

structure PageBlockListItem where
  level : Int
  sourceIndices : List Int

structure PageBlockList where
  ordered : Bool
  marker : String
  items : List PageBlockListItem

def listStructure (block : GigaBlock) : PageBlockList where
  ordered := block.ordered
  marker := block.marker.getD "•"
  items := block.items.map fun item => ⟨item.level.getD 0, nestedSourceIndices item.blocks⟩

def listResolvableRunCount (list : PageBlockList) : Nat :=
  (list.items.map fun item => item.sourceIndices.length).sum

/-! ## Groups -/

structure PageBlockGroup where
  kind : BlockKind
  sourceIndices : List Int
  lines : List (List Int)
  style : Option GroupStyle
  table : Option PageBlockTable
  list : Option PageBlockList

/-- A single run is no paragraph, and a table or a list without an index is left to its elements. -/
def blockGroup (block : GigaBlock) : Option PageBlockGroup :=
  match block.kind with
  | .paragraph | .heading =>
    let lines := paragraphLines block
    if lines.flat.length < 2 then none
    else
      some ⟨block.kind, lines.flat, lines.lines, some (paragraphGroupStyle block), none, none⟩
  | .table =>
    (tableStructure block).bind fun table =>
      if tableResolvableRunCount table = 0 then none
      else some ⟨block.kind, [], [], none, some table, none⟩
  | .list =>
    let list := listStructure block
    if listResolvableRunCount list = 0 then none
    else some ⟨block.kind, [], [], none, none, some list⟩
  | .other => none

def gigaBlocksToPageBlockGroups (blocks : List GigaBlock) : List PageBlockGroup :=
  blocks.filterMap blockGroup

/-! ## The tables of the model -/

def cellSourceIndices (cellBlocks : List GigaBlock) : List Int :=
  cellBlocks.flatMap fun block =>
    match block.kind with
    | .paragraph => collectRunSourceIndices (paragraphRuns block)
    | .heading => collectRunSourceIndices (headingRuns block)
    | .list | .table | .other => []

def tableCells (rows : List (TableRow GigaBlock)) : List TableCellInfo :=
  (grid rows).map fun cell => cell.info cellSourceIndices

def tableBody (block : GigaBlock) : Option (List (TableRow GigaBlock) × List ℚ) :=
  if block.kind = .table then block.rows.map fun rows => (rows, colWidths block) else none

structure TableInfo where
  pageNumber : Nat
  tableIndexOnPage : Nat
  addr : GigaBlockAddr
  rowCount : Nat
  colCount : Int
  frame : Option BlockFrame
  cells : List TableCellInfo

/-- The tables of a page with their places among its blocks. -/
def pageTables (page : GigaPage) : List (Nat × GigaBlock × List (TableRow GigaBlock) × List ℚ) :=
  page.blocks.zipIdx.filterMap fun block =>
    (tableBody block.1).map fun body => (block.2, block.1, body)

/-- The pages in the order of the walk. -/
def GigaDocument.pagesInOrder (model : GigaDocument) : List (Nat × Nat × GigaPage) :=
  model.sections.zipIdx.flatMap fun sec =>
    sec.1.pages.zipIdx.map fun page => (sec.2, page.2, page.1)

def tableInfo (pageNumber sec page tableIndexOnPage index : Nat) (block : GigaBlock)
    (rows : List (TableRow GigaBlock)) (colWidths : List ℚ) : TableInfo where
  pageNumber := pageNumber
  tableIndexOnPage := tableIndexOnPage
  addr := ⟨sec, page, index⟩
  rowCount := rows.length
  colCount := tableColCount rows colWidths
  frame := block.frame
  cells := tableCells rows

def listTablesInModel (model : GigaDocument) : List TableInfo :=
  model.pagesInOrder.zipIdx.flatMap fun ((sec, page, p), pageIndex) =>
    (pageTables p).zipIdx.map fun ((index, block, rows, colWidths), tableIndexOnPage) =>
      tableInfo (pageIndex + 1) sec page tableIndexOnPage index block rows colWidths

/-! ## The runs behind the indices -/

def Inline.run? : Inline → Option Run
  | .run r => some r
  | .br | .link _ | .other => none

def inlineLineRuns : Inline → List Run
  | .run run => [run]
  | .link children => children.filterMap Inline.run?
  | .br | .other => []

/-- The runs of the lines of a paragraph or heading. -/
def lineRuns (block : GigaBlock) : List Run := (blockRuns block).flatMap inlineLineRuns

/-- The runs of the blocks of a cell or an item. -/
def nestedRuns (blocks : List GigaBlock) : List Run :=
  blocks.flatMap fun block => (nestedBlockRuns block).filterMap Inline.run?

theorem inlineRunIndices_eq (inline : Inline) :
    inlineRunIndices inline = inline.run?.toList.flatMap Run.indices := by
  cases inline with
  | run run => exact (List.append_nil _).symm
  | br | link | other => rfl

theorem flatMap_inlineRunIndices (inlines : List Inline) :
    inlines.flatMap inlineRunIndices = (inlines.filterMap Inline.run?).flatMap Run.indices := by
  induction inlines with
  | nil => rfl
  | cons inline inlines ih =>
    rw [List.flatMap_cons, ih, inlineRunIndices_eq]
    cases found : inline.run? with
    | none => rw [List.filterMap_cons_none found]; rfl
    | some run => rw [List.filterMap_cons_some found, List.flatMap_cons]; simp

theorem nestedSourceIndices_eq (blocks : List GigaBlock) :
    nestedSourceIndices blocks = (nestedRuns blocks).flatMap Run.indices := by
  rw [nestedSourceIndices, nestedRuns, List.flatMap_assoc]
  apply List.flatMap_congr
  intro block _
  exact flatMap_inlineRunIndices _

namespace ParagraphLines

theorem flat_pushRuns (children : List Inline) (p : ParagraphLines) :
    (children.foldl pushRun p).flat = p.flat ++ children.flatMap inlineRunIndices := by
  induction children generalizing p with
  | nil => simp
  | cons inline children ih => rw [List.foldl_cons, ih]; simp [pushRun]

theorem flat_push (p : ParagraphLines) (inline : Inline) :
    (p.push inline).flat = p.flat ++ (inlineLineRuns inline).flatMap Run.indices := by
  cases inline with
  | run run => simp [push, pushRun, inlineLineRuns, Run.indices]
  | br => simp [push, closeLine, inlineLineRuns]
  | link children => rw [push, flat_pushRuns, flatMap_inlineRunIndices]; rfl
  | other => simp [push, inlineLineRuns]

theorem flat_foldl_push (inlines : List Inline) (p : ParagraphLines) :
    (inlines.foldl push p).flat =
      p.flat ++ (inlines.flatMap inlineLineRuns).flatMap Run.indices := by
  induction inlines generalizing p with
  | nil => simp
  | cons inline inlines ih => rw [List.foldl_cons, ih, flat_push]; simp

/-- The lines hold what has been pushed. -/
def Holds (p : ParagraphLines) : Prop := p.lines.flatten ++ p.current = p.flat

theorem Holds.closeLine {p : ParagraphLines} (holds : p.Holds) : p.closeLine.Holds := by
  simp only [Holds, ParagraphLines.closeLine, List.append_nil] at holds ⊢
  split
  · rename_i empty
    simpa [empty] using holds
  · simpa using holds

theorem Holds.pushRun {p : ParagraphLines} (holds : p.Holds) (inline : Inline) :
    (p.pushRun inline).Holds := by
  simp only [Holds, ParagraphLines.pushRun] at holds ⊢
  rw [← List.append_assoc, holds]

theorem Holds.push {p : ParagraphLines} (holds : p.Holds) (inline : Inline) :
    (p.push inline).Holds := by
  cases inline with
  | run run => exact holds.pushRun _
  | br => exact holds.closeLine
  | link children =>
    rw [ParagraphLines.push]
    induction children generalizing p with
    | nil => exact holds
    | cons child children ih => exact ih (holds.pushRun child)
  | other => exact holds

end ParagraphLines

theorem paragraphLines_flat (block : GigaBlock) :
    (paragraphLines block).flat = (lineRuns block).flatMap Run.indices := by
  rw [paragraphLines, ParagraphLines.closeLine, ParagraphLines.flat_foldl_push]
  rfl

/-- `lines.flat()` always equals `flat`. -/
theorem paragraphLines_flatten (block : GigaBlock) :
    (paragraphLines block).lines.flatten = (paragraphLines block).flat := by
  have all : ∀ (inlines : List Inline) (p : ParagraphLines), p.Holds →
      (inlines.foldl ParagraphLines.push p).Holds := by
    intro inlines
    induction inlines with
    | nil => exact fun _ holds => holds
    | cons inline inlines ih => exact fun p holds => ih _ (holds.push inline)
  have holds := (all (blockRuns block) ⟨[], [], []⟩ rfl).closeLine
  have closed : (paragraphLines block).current = [] := rfl
  rw [ParagraphLines.Holds] at holds
  rwa [← paragraphLines, closed, List.append_nil] at holds

theorem Inline.run?_eq_some {inline : Inline} {run : Run} (h : inline.run? = some run) :
    inline = .run run := by
  cases inline with
  | run other =>
    cases h
    rfl
  | br | link | other => cases h

theorem hasRun_of_lineRuns {block : GigaBlock} {run : Run} (mem : run ∈ lineRuns block) :
    block.HasRun run := by
  obtain ⟨inline, here, mem⟩ := List.mem_flatMap.mp mem
  have has : inline.HasRun run := by
    cases inline with
    | run other =>
      cases List.mem_singleton.mp mem
      exact .run
    | link children =>
      obtain ⟨child, inside, found⟩ := List.mem_filterMap.mp mem
      cases Inline.run?_eq_some found
      exact .link inside .run
    | br | other => cases mem
  rw [blockRuns, paragraphBody] at here
  split at here
  · cases para : block.para with
    | none =>
      rw [para] at here
      exact .body here has
    | some body =>
      rw [para] at here
      exact .para para here has
  · exact .body here has

theorem hasRun_of_nestedRuns {blocks : List GigaBlock} {run : Run} (mem : run ∈ nestedRuns blocks) :
    ∃ block ∈ blocks, block.HasRun run := by
  obtain ⟨block, inside, mem⟩ := List.mem_flatMap.mp mem
  obtain ⟨inline, here, found⟩ := List.mem_filterMap.mp mem
  cases Inline.run?_eq_some found
  refine ⟨block, inside, ?_⟩
  rw [nestedBlockRuns] at here
  split at here
  · cases para : block.para with
    | none =>
      rw [para] at here
      cases here
    | some body =>
      rw [para] at here
      exact .para para here .run
  · exact .body here .run

theorem Run.carries_of_indices {run : Run} {idx : Int} (mem : idx ∈ run.indices) :
    run.Carries idx := by
  have stands : 0 ≤ idx ∧ idx ∈ run.body.numbers := by
    rw [Run.indices, inlineRunIndices] at mem
    split at mem
    · obtain ⟨listed, bound⟩ := List.mem_filter.mp mem
      exact ⟨by simpa using bound, List.mem_append_right _ listed⟩
    · obtain ⟨scalar, bound⟩ := Option.filter_eq_some_iff.mp (Option.mem_toList.mp mem)
      exact ⟨by simpa using bound, List.mem_append_left _ (by simp [scalar])⟩
  refine ⟨stands.1, ?_⟩
  cases wrapped : run.wrapped with
  | none =>
    rw [Run.body, wrapped] at stands
    exact Or.inl stands.2
  | some body =>
    rw [Run.body, wrapped] at stands
    exact Or.inr ⟨body, rfl, stands.2⟩

/-! ## Where an index is recorded -/

/-- The run has no index but its scalar one: neither a longer list nor, under `v`, another one. -/
def Run.OneIndex (run : Run) : Prop :=
  ∀ idx, 0 ≤ idx →
    idx ∈ run.body.listed ∨ run.body.listed = [] ∧ run.body.sourceIndex = some idx →
    run.flat.sourceIndex.or (run.wrapped.bind RunBody.sourceIndex) = some idx

theorem Run.mem_indices {run : Run} {idx : Int} :
    idx ∈ run.indices ↔ 0 ≤ idx ∧
      (idx ∈ run.body.listed ∨ run.body.listed = [] ∧ run.body.sourceIndex = some idx) := by
  have bound : idx ∈ run.body.listed → 0 ≤ idx := by
    intro mem
    simpa using (List.mem_filter.mp mem).2
  rw [Run.indices, inlineRunIndices]
  by_cases empty : run.body.listed = []
  · rw [if_neg (not_not.mpr empty), Option.mem_toList, Option.filter_eq_some_iff, empty]
    constructor
    · rintro ⟨scalar, le⟩
      exact ⟨by simpa using le, Or.inr ⟨rfl, scalar⟩⟩
    · rintro ⟨le, absurd | ⟨-, scalar⟩⟩
      · cases absurd
      · exact ⟨scalar, by simpa using le⟩
  · rw [if_pos empty]
    constructor
    · intro mem
      exact ⟨bound mem, Or.inl mem⟩
    · rintro ⟨-, mem | ⟨none_listed, -⟩⟩
      · exact mem
      · exact absurd none_listed empty

theorem Run.oneIndex_iff (run : Run) :
    run.OneIndex ↔ ∀ idx ∈ run.indices, run.sourceIndex = some idx := by
  simp only [Run.OneIndex, Run.mem_indices, Run.sourceIndex, Option.filter_eq_some_iff]
  constructor
  · rintro one idx ⟨le, stands⟩
    exact ⟨one idx le stands, by simpa using le⟩
  · intro scalar idx le stands
    exact (scalar idx ⟨le, stands⟩).1

/-- The bridge leads from every index of the run to the block. -/
def Run.Bridged (model : GigaDocument) (home : GigaBlockAddr) (block : GigaBlock) (run : Run) :
    Prop :=
  run.indices = [] ∨ run.OneIndex ∧ block.ReadsRun run ∧
    ∀ idx ∈ run.indices, ∀ addr other, model.block? addr = some other →
      idx ∈ collectBlockSourceIndices other → ¬addr.PageBefore home

theorem forall_or_nil {α : Type} {p : α → Prop} {q : Prop} {l : List α} :
    (∀ a ∈ l, p a ∧ q) ↔ l = [] ∨ (∀ a ∈ l, p a) ∧ q := by
  cases l with
  | nil => simp
  | cons a l =>
    constructor
    · intro all
      exact Or.inr ⟨fun b mem => (all b mem).1, (all a List.mem_cons_self).2⟩
    · rintro (absurd | ⟨all, holds⟩)
      · cases absurd
      · exact fun b mem => ⟨all b mem, holds⟩

section
variable {model : GigaDocument} {home : GigaBlockAddr} {block : GigaBlock}

/-- Within its block an index is recorded through its own run. -/
theorem recorded_iff (unique : model.UniqueOnPages) (here : model.block? home = some block)
    {run : Run} (has : block.HasRun run) {idx : Int} (mem : idx ∈ run.indices)
    {reads : Run → Prop} (inBlock : ∀ other, reads other → block.HasRun other) :
    (∃ other, reads other ∧ other.sourceIndex = some idx) ↔
      run.sourceIndex = some idx ∧ reads run := by
  constructor
  · rintro ⟨other, read, scalar⟩
    have same := (unique.same_block here here rfl rfl has (inBlock other read)
      (Run.carries_of_indices mem) (Run.carries_sourceIndex scalar)).2
    subst same
    exact ⟨scalar, read⟩
  · rintro ⟨scalar, read⟩
    exact ⟨run, read, scalar⟩

theorem bridged_iff (unique : model.UniqueOnPages) (here : model.block? home = some block)
    {run : Run} (has : block.HasRun run) :
    (∀ idx ∈ run.indices, lookup idx (buildSourceIndexAddrMap model) = some home) ↔
      run.Bridged model home block := by
  have leads : ∀ idx ∈ run.indices,
      (lookup idx (buildSourceIndexAddrMap model) = some home ↔
        (run.sourceIndex = some idx ∧ ∀ addr other, model.block? addr = some other →
          idx ∈ collectBlockSourceIndices other → ¬addr.PageBefore home) ∧
        block.ReadsRun run) := by
    intro idx mem
    rw [lookup_buildSourceIndexAddrMap, find?_eq_home_iff unique (fun _ => carried_of_collected) here,
      mem_collectBlockSourceIndices,
      recorded_iff unique here has mem fun _ => GigaBlock.ReadsRun.hasRun]
    exact and_right_comm
  have all : (∀ idx ∈ run.indices, lookup idx (buildSourceIndexAddrMap model) = some home) ↔
      ∀ idx ∈ run.indices,
        (run.sourceIndex = some idx ∧ ∀ addr other, model.block? addr = some other →
          idx ∈ collectBlockSourceIndices other → ¬addr.PageBefore home) ∧
        block.ReadsRun run := by
    constructor
    · intro found idx mem
      exact (leads idx mem).mp (found idx mem)
    · intro recorded idx mem
      exact (leads idx mem).mpr (recorded idx mem)
  rw [all, forall_or_nil, Run.Bridged, Run.oneIndex_iff]
  constructor
  · rintro (empty | ⟨both, reads⟩)
    · exact Or.inl empty
    · exact Or.inr ⟨fun idx mem => (both idx mem).1, reads, fun idx mem => (both idx mem).2⟩
  · rintro (empty | ⟨scalar, reads, first⟩)
    · exact Or.inl empty
    · exact Or.inr ⟨fun idx mem => ⟨scalar idx mem, first idx mem⟩, reads⟩

end

/-! ## The cells -/

theorem one_le_spanOf (span : Option Int) : 1 ≤ spanOf span := by
  rw [spanOf]
  cases found : span.filter fun n => 1 ≤ n with
  | none => exact Int.le_refl 1
  | some n => simpa using (Option.filter_eq_some_iff.mp found).2

theorem mem_rowGrid {row : Nat} {col : Int} {cells : List (TableCell GigaBlock)} {cell : GridCell}
    (mem : cell ∈ rowGrid row col cells) :
    cell.row = row ∧ col ≤ cell.col ∧ ∃ raw ∈ cells, cell.blocks = raw.blocks := by
  induction cells generalizing col with
  | nil => cases mem
  | cons raw cells ih =>
    obtain rfl | mem := List.mem_cons.mp mem
    · exact ⟨rfl, Int.le_refl col, raw, List.mem_cons_self, rfl⟩
    · obtain ⟨same, le, other, later, blocks⟩ := ih mem
      have span := one_le_spanOf raw.colSpan
      exact ⟨same, by omega, other, List.mem_cons_of_mem _ later, blocks⟩

theorem rowGrid_ordered (row : Nat) (col : Int) (cells : List (TableCell GigaBlock)) :
    (rowGrid row col cells).Pairwise fun a b => a.col < b.col := by
  induction cells generalizing col with
  | nil => exact List.Pairwise.nil
  | cons raw cells ih =>
    rw [rowGrid, List.pairwise_cons]
    refine ⟨fun cell mem => ?_, ih _⟩
    obtain ⟨-, le, -⟩ := mem_rowGrid mem
    have span := one_le_spanOf raw.colSpan
    simp only
    omega

/-- A place of the grid is that of one cell. -/
theorem grid_ordered (rows : List (TableRow GigaBlock)) :
    (grid rows).Pairwise fun a b => a.row < b.row ∨ a.row = b.row ∧ a.col < b.col := by
  rw [grid, List.pairwise_flatMap]
  constructor
  · intro row _
    apply (rowGrid_ordered row.2 0 row.1.cells).imp_of_mem
    intro a b inRow inRow' lt
    rw [(mem_rowGrid inRow).1, (mem_rowGrid inRow').1]
    exact Or.inr ⟨rfl, lt⟩
  · apply (pairwise_zipIdx rows 0).imp
    intro row row' lt a inRow b inRow'
    rw [(mem_rowGrid inRow).1, (mem_rowGrid inRow').1]
    exact Or.inl lt

theorem grid_place {rows : List (TableRow GigaBlock)} {a b : GridCell} (inGrid : a ∈ grid rows)
    (inGrid' : b ∈ grid rows) (row : a.row = b.row) (col : a.col = b.col) : a = b := by
  by_contra other
  have apart : (grid rows).Pairwise fun x y => ¬(x.row = y.row ∧ x.col = y.col) := by
    apply (grid_ordered rows).imp
    intro x y before same
    omega
  have symm : Std.Symm fun x y : GridCell => ¬(x.row = y.row ∧ x.col = y.col) :=
    ⟨fun x y differ same => differ ⟨same.1.symm, same.2.symm⟩⟩
  exact apart.forall inGrid inGrid' other ⟨row, col⟩

theorem blocks_of_grid {block : GigaBlock} {rows : List (TableRow GigaBlock)} {cell : GridCell}
    (table : block.rows = some rows) (mem : cell ∈ grid rows) {inner : GigaBlock}
    (inside : inner ∈ cell.blocks) : inner ∈ block.nested := by
  obtain ⟨⟨row, k⟩, inTable, inRow⟩ := List.mem_flatMap.mp mem
  obtain ⟨-, -, raw, inCells, blocks⟩ := mem_rowGrid inRow
  rw [blocks] at inside
  apply List.mem_append_right
  rw [table, Option.getD_some, List.mem_flatMap]
  exact ⟨row, List.fst_mem_of_mem_zipIdx inTable, List.mem_flatMap.mpr ⟨raw, inCells, inside⟩⟩

/-- The run stands where the walk over the cells looks. -/
def CellReads (blocks : List GigaBlock) (run : Run) : Prop :=
  ∃ inner ∈ blocks, (inner.kind = .paragraph ∨ inner.kind = .heading) ∧ inner.ReadsRun run

theorem mem_cellSourceIndices {blocks : List GigaBlock} {idx : Int} :
    idx ∈ cellSourceIndices blocks ↔ ∃ run, CellReads blocks run ∧ run.sourceIndex = some idx := by
  have text : ∀ inner : GigaBlock, idx ∈ (match inner.kind with
        | .paragraph => collectRunSourceIndices (paragraphRuns inner)
        | .heading => collectRunSourceIndices (headingRuns inner)
        | .list | .table | .other => []) ↔
      (inner.kind = .paragraph ∨ inner.kind = .heading) ∧
        idx ∈ collectBlockSourceIndices inner := by
    intro inner
    rw [collectBlockSourceIndices_eq]
    cases inner.kind <;> simp
  simp only [cellSourceIndices, List.mem_flatMap, text, mem_collectBlockSourceIndices, CellReads]
  constructor
  · rintro ⟨inner, inside, kind, run, reads, scalar⟩
    exact ⟨run, ⟨inner, inside, kind, reads⟩, scalar⟩
  · rintro ⟨run, ⟨inner, inside, kind, reads⟩, scalar⟩
    exact ⟨inner, inside, kind, run, reads, scalar⟩

theorem mem_pagesInOrder {model : GigaDocument} {sec page : Nat} {p : GigaPage} :
    (sec, page, p) ∈ model.pagesInOrder ↔ model.page? sec page = some p := by
  simp only [GigaDocument.pagesInOrder, List.mem_flatMap, List.mem_map,
    List.mem_zipIdx_iff_getElem?, GigaDocument.page?, Option.bind_eq_some_iff]
  constructor
  · rintro ⟨⟨s, k⟩, inDoc, ⟨q, j⟩, inSection, same⟩
    cases same
    exact ⟨s, inDoc, inSection⟩
  · rintro ⟨s, inDoc, inSection⟩
    exact ⟨(s, sec), inDoc, (p, page), inSection, rfl⟩

/-- The tables at an address are the table there. -/
theorem table_at_iff {model : GigaDocument} {home : GigaBlockAddr} {P : List TableCellInfo → Prop} :
    (∃ info ∈ listTablesInModel model, info.addr = home ∧ P info.cells) ↔
      ∃ block, model.block? home = some block ∧ block.kind = .table ∧
        ∃ rows, block.rows = some rows ∧ P (tableCells rows) := by
  have onPage : ∀ (page : GigaPage) (i : Nat) block rows widths,
      (i, block, rows, widths) ∈ pageTables page ↔
        page.blocks[i]? = some block ∧ block.kind = .table ∧ block.rows = some rows ∧
          colWidths block = widths := by
    intro page i block rows widths
    simp only [pageTables, tableBody, List.mem_filterMap, List.mem_zipIdx_iff_getElem?,
      Option.map_eq_some_iff, Option.ite_none_right_eq_some]
    constructor
    · rintro ⟨⟨other, j⟩, here, _, ⟨kind, _, table, rfl⟩, same⟩
      cases same
      exact ⟨here, kind, table, rfl⟩
    · rintro ⟨here, kind, table, rfl⟩
      exact ⟨(block, i), here, _, ⟨kind, rows, table, rfl⟩, rfl⟩
  constructor
  · rintro ⟨info, mem, rfl, holds⟩
    obtain ⟨⟨⟨sec, page, p⟩, n⟩, inOrder, mem⟩ := List.mem_flatMap.mp mem
    obtain ⟨⟨⟨i, block, rows, widths⟩, k⟩, inPage, rfl⟩ := List.mem_map.mp mem
    have inDoc := mem_pagesInOrder.mp (List.fst_mem_of_mem_zipIdx inOrder)
    obtain ⟨here, kind, table, -⟩ := (onPage p i block rows widths).mp
      (List.fst_mem_of_mem_zipIdx inPage)
    exact ⟨block, Option.bind_eq_some_iff.mpr ⟨p, inDoc, here⟩, kind, rows, table, holds⟩
  · rintro ⟨block, here, kind, rows, table, holds⟩
    obtain ⟨p, inDoc, here⟩ := Option.bind_eq_some_iff.mp here
    obtain ⟨n, inOrder⟩ := List.mem_iff_getElem?.mp (mem_pagesInOrder.mpr inDoc)
    obtain ⟨k, inPage⟩ := List.mem_iff_getElem?.mp
      ((onPage p home.index block rows (colWidths block)).mpr ⟨here, kind, table, rfl⟩)
    refine ⟨_, List.mem_flatMap.mpr ⟨((home.sec, home.page, p), n), ?_, List.mem_map.mpr
      ⟨((home.index, block, rows, colWidths block), k), ?_, rfl⟩⟩, rfl, holds⟩
    · exact List.mem_zipIdx_iff_getElem?.mpr inOrder
    · exact List.mem_zipIdx_iff_getElem?.mpr inPage

/-! ## What is grouped can be addressed -/

/-- The runs whose indices the editor gets for the block as a whole. -/
def groupedRuns (block : GigaBlock) : List Run :=
  match block.kind with
  | .paragraph | .heading =>
    if ((lineRuns block).flatMap Run.indices).length < 2 then [] else lineRuns block
  | .list => nestedRuns (block.items.flatMap ListItem.blocks)
  | .table | .other => []

/-- The cells of a table. -/
def groupedCells (block : GigaBlock) : List GridCell :=
  if block.kind = .table then grid (block.rows.getD []) else []

/-- The indices that the editor gets for a paragraph, a heading or the items of a list. -/
def PageBlockGroup.indices (group : PageBlockGroup) : List Int :=
  group.sourceIndices ++
    (group.list.map fun list => list.items.flatMap PageBlockListItem.sourceIndices).getD []

def PageBlockGroup.cells (group : PageBlockGroup) : List TableCellInfo :=
  (group.table.map PageBlockTable.cells).getD []

theorem sum_map_length {α β : Type} (f : α → List β) (l : List α) :
    (l.map fun a => (f a).length).sum = (l.flatMap f).length := by
  rw [List.length_flatMap]

theorem groupedIndices (block : GigaBlock) :
    ((blockGroup block).map PageBlockGroup.indices).getD [] =
      (groupedRuns block).flatMap Run.indices := by
  have text : ∀ kind, ((if (paragraphLines block).flat.length < 2 then none
      else some (PageBlockGroup.mk kind (paragraphLines block).flat (paragraphLines block).lines
        (some (paragraphGroupStyle block)) none none)).map PageBlockGroup.indices).getD [] =
      (if ((lineRuns block).flatMap Run.indices).length < 2 then []
        else lineRuns block).flatMap Run.indices := by
    intro kind
    rw [paragraphLines_flat]
    split
    · rfl
    · exact List.append_nil _
  have items : (listStructure block).items.flatMap PageBlockListItem.sourceIndices =
      (nestedRuns (block.items.flatMap ListItem.blocks)).flatMap Run.indices := by
    rw [← nestedSourceIndices_eq, listStructure, List.flatMap_map, nestedSourceIndices,
      List.flatMap_assoc]
    rfl
  rw [blockGroup, groupedRuns]
  cases kind : block.kind with
  | paragraph | heading => exact text _
  | list =>
    simp only
    split
    · rename_i empty
      rw [listResolvableRunCount, sum_map_length, items] at empty
      exact (List.length_eq_zero_iff.mp empty).symm
    · exact items
  | table =>
    simp only
    cases tableStructure block with
    | none => rfl
    | some table =>
      rw [Option.bind_some]
      split <;> rfl
  | other => rfl

/-- A cell without an index is in no group only where no cell has one. -/
theorem groupedCell_iff {block : GigaBlock} {idx : Int} {P : Nat → Int → Prop} :
    (∃ cell ∈ ((blockGroup block).map PageBlockGroup.cells).getD [],
        idx ∈ cell.sourceIndices ∧ P cell.row cell.col) ↔
      ∃ cell ∈ groupedCells block, idx ∈ nestedSourceIndices cell.blocks ∧ P cell.row cell.col := by
  rw [blockGroup, groupedCells]
  cases kind : block.kind with
  | paragraph | heading =>
    simp only
    split <;> simp [PageBlockGroup.cells]
  | list =>
    simp only
    split <;> simp [PageBlockGroup.cells]
  | other => simp
  | table =>
    simp only [tableStructure]
    cases block.rows with
    | none => simp [grid]
    | some rows =>
      rw [Option.map_some, Option.bind_some, if_pos trivial, Option.getD_some]
      split
      · rename_i empty
        rw [tableResolvableRunCount, List.map_map] at empty
        have none_indexed : ∀ cell ∈ grid rows, nestedSourceIndices cell.blocks = [] := by
          intro cell mem
          have zero := (List.sum_eq_zero_iff_forall_eq_nat.mp empty) _ (List.mem_map_of_mem mem)
          exact List.length_eq_zero_iff.mp zero
        constructor
        · rintro ⟨cell, absurd, -⟩
          cases absurd
        · rintro ⟨cell, mem, indexed, -⟩
          rw [none_indexed cell mem] at indexed
          cases indexed
      · simp only [PageBlockGroup.cells, Option.map_some, Option.getD_some, List.mem_map]
        constructor
        · rintro ⟨_, ⟨cell, mem, rfl⟩, indexed, holds⟩
          exact ⟨cell, mem, indexed, holds⟩
        · rintro ⟨cell, mem, indexed, holds⟩
          exact ⟨_, ⟨cell, mem, rfl⟩, indexed, holds⟩

/-- Every index that the editor gets for the block leads to the block, and that of a cell to the
cell. -/
structure Addressable (model : GigaDocument) (home : GigaBlockAddr) (block : GigaBlock) : Prop where
  runs : ∀ group, blockGroup block = some group → ∀ idx ∈ group.indices,
    lookup idx (buildSourceIndexAddrMap model) = some home
  cells : ∀ group, blockGroup block = some group → ∀ cell ∈ group.cells,
    ∀ idx ∈ cell.sourceIndices, ∃ info ∈ listTablesInModel model, info.addr = home ∧
      ∃ other ∈ info.cells, idx ∈ other.sourceIndices ∧ other.row = cell.row ∧ other.col = cell.col

/-- Every run with an index has this one only, and stands where the other walk looks; the index of
a paragraph, heading or list is on no earlier page. -/
structure BlockBridged (model : GigaDocument) (home : GigaBlockAddr) (block : GigaBlock) :
    Prop where
  runs : ∀ run ∈ groupedRuns block, run.Bridged model home block
  cells : ∀ cell ∈ groupedCells block, ∀ run ∈ nestedRuns cell.blocks,
    run.indices = [] ∨ run.OneIndex ∧ CellReads cell.blocks run

theorem hasRun_of_groupedRuns {block : GigaBlock} {run : Run} (mem : run ∈ groupedRuns block) :
    block.HasRun run := by
  rw [groupedRuns] at mem
  split at mem
  · split at mem
    · cases mem
    · exact hasRun_of_lineRuns mem
  · split at mem
    · cases mem
    · exact hasRun_of_lineRuns mem
  · obtain ⟨inner, inside, has⟩ := hasRun_of_nestedRuns mem
    exact .nested (List.mem_append_left _ inside) has
  · cases mem
  · cases mem

section
variable {model : GigaDocument} {home : GigaBlockAddr} {block : GigaBlock}

theorem groupedCells_table {cell : GridCell} (mem : cell ∈ groupedCells block) :
    block.kind = .table ∧ ∃ rows, block.rows = some rows ∧ cell ∈ grid rows := by
  rw [groupedCells] at mem
  split at mem
  · cases rows : block.rows with
    | none =>
      rw [rows] at mem
      cases mem
    | some found =>
      rw [rows] at mem
      exact ⟨‹_›, found, rfl, mem⟩
  · cases mem

/-- The cell at the same place is found, and with it what the other walk collects there. -/
theorem cell_found_iff (here : model.block? home = some block) {cell : GridCell}
    (mem : cell ∈ groupedCells block) (idx : Int) :
    (∃ info ∈ listTablesInModel model, info.addr = home ∧ ∃ other ∈ info.cells,
        idx ∈ other.sourceIndices ∧ other.row = cell.row ∧ other.col = cell.col) ↔
      idx ∈ cellSourceIndices cell.blocks := by
  obtain ⟨kind, rows, table, inGrid⟩ := groupedCells_table mem
  rw [table_at_iff (P := fun cells => ∃ other ∈ cells, idx ∈ other.sourceIndices ∧
    other.row = cell.row ∧ other.col = cell.col)]
  constructor
  · rintro ⟨block', here', -, rows', table', _, inTable, found, row, col⟩
    rw [here] at here'
    cases here'
    rw [table] at table'
    cases table'
    obtain ⟨other, inGrid', rfl⟩ := List.mem_map.mp inTable
    rw [← grid_place inGrid' inGrid row col]
    exact found
  · intro found
    exact ⟨block, here, kind, rows, table, cell.info cellSourceIndices,
      List.mem_map.mpr ⟨cell, inGrid, rfl⟩, found, rfl, rfl⟩

theorem cell_bridged_iff (unique : model.UniqueOnPages) (here : model.block? home = some block)
    {cell : GridCell} (mem : cell ∈ groupedCells block) {run : Run}
    (inCell : run ∈ nestedRuns cell.blocks) :
    (∀ idx ∈ run.indices, idx ∈ cellSourceIndices cell.blocks) ↔
      run.indices = [] ∨ run.OneIndex ∧ CellReads cell.blocks run := by
  obtain ⟨-, rows, table, inGrid⟩ := groupedCells_table mem
  have has : block.HasRun run := by
    obtain ⟨inner, inside, has⟩ := hasRun_of_nestedRuns inCell
    exact .nested (blocks_of_grid table inGrid inside) has
  have inBlock : ∀ other, CellReads cell.blocks other → block.HasRun other := by
    rintro other ⟨inner, inside, -, reads⟩
    exact .nested (blocks_of_grid table inGrid inside) reads.hasRun
  rw [Run.oneIndex_iff, ← forall_or_nil]
  constructor
  · intro found idx indexed
    exact (recorded_iff unique here has indexed inBlock).mp
      (mem_cellSourceIndices.mp (found idx indexed))
  · intro recorded idx indexed
    exact mem_cellSourceIndices.mpr
      ((recorded_iff unique here has indexed inBlock).mpr (recorded idx indexed))

/-- **What the editor groups can be addressed** just when the two walks read it alike. -/
theorem grouped_addressable_iff (unique : model.UniqueOnPages)
    (here : model.block? home = some block) :
    Addressable model home block ↔ BlockBridged model home block := by
  have indices : (∀ group, blockGroup block = some group → ∀ idx ∈ group.indices,
      lookup idx (buildSourceIndexAddrMap model) = some home) ↔
      ∀ run ∈ groupedRuns block, run.Bridged model home block := by
    have grouped := groupedIndices block
    constructor
    · intro leads run mem
      apply (bridged_iff unique here (hasRun_of_groupedRuns mem)).mp
      intro idx indexed
      have surfaced := List.mem_flatMap.mpr ⟨run, mem, indexed⟩
      rw [← grouped] at surfaced
      cases found : blockGroup block with
      | none =>
        rw [found] at surfaced
        cases surfaced
      | some group =>
        rw [found] at surfaced
        exact leads group found idx surfaced
    · intro bridged group found idx surfaced
      rw [found] at grouped
      rw [show group.indices = _ from grouped] at surfaced
      obtain ⟨run, mem, indexed⟩ := List.mem_flatMap.mp surfaced
      exact (bridged_iff unique here (hasRun_of_groupedRuns mem)).mpr (bridged run mem) idx indexed
  have cells : (∀ group, blockGroup block = some group → ∀ cell ∈ group.cells,
      ∀ idx ∈ cell.sourceIndices, ∃ info ∈ listTablesInModel model, info.addr = home ∧
        ∃ other ∈ info.cells, idx ∈ other.sourceIndices ∧ other.row = cell.row ∧
          other.col = cell.col) ↔
      ∀ cell ∈ groupedCells block, ∀ run ∈ nestedRuns cell.blocks,
        run.indices = [] ∨ run.OneIndex ∧ CellReads cell.blocks run := by
    constructor
    · intro found cell mem run inCell
      apply (cell_bridged_iff unique here mem inCell).mp
      intro idx indexed
      apply (cell_found_iff here mem idx).mp
      have nested : idx ∈ nestedSourceIndices cell.blocks := by
        rw [nestedSourceIndices_eq]
        exact List.mem_flatMap.mpr ⟨run, inCell, indexed⟩
      obtain ⟨other, surfaced, inOther, row, col⟩ :=
        (groupedCell_iff (P := fun row col => row = cell.row ∧ col = cell.col)).mpr
          ⟨cell, mem, nested, rfl, rfl⟩
      cases grouped : blockGroup block with
      | none =>
        rw [grouped] at surfaced
        cases surfaced
      | some group =>
        rw [grouped] at surfaced
        have there := found group grouped other surfaced idx inOther
        rwa [row, col] at there
    · intro bridged group grouped cell surfaced idx indexed
      have inGroup : cell ∈ ((blockGroup block).map PageBlockGroup.cells).getD [] := by
        rw [grouped]
        exact surfaced
      obtain ⟨own, mem, nested, row, col⟩ :=
        (groupedCell_iff (P := fun row col => row = cell.row ∧ col = cell.col)).mp
          ⟨cell, inGroup, indexed, rfl, rfl⟩
      rw [nestedSourceIndices_eq] at nested
      obtain ⟨run, inCell, carried⟩ := List.mem_flatMap.mp nested
      have found := (cell_bridged_iff unique here mem inCell).mpr (bridged own mem run inCell) idx
        carried
      rw [← row, ← col]
      exact (cell_found_iff here mem idx).mpr found
  constructor
  · intro addressable
    exact ⟨indices.mp addressable.runs, cells.mp addressable.cells⟩
  · intro bridged
    exact ⟨indices.mpr bridged.runs, cells.mpr bridged.cells⟩

end

/-- A page with one paragraph. -/
def oneParagraph (runs : List Run) : GigaDocument := ⟨[⟨[⟨[paragraphBlock runs]⟩]⟩]⟩

theorem oneParagraph_unique {runs : List Run} (unique : GigaPage.Unique ⟨[paragraphBlock runs]⟩) :
    (oneParagraph runs).UniqueOnPages := by
  intro sec page p here
  obtain ⟨s, inDoc, inSection⟩ := Option.bind_eq_some_iff.mp here
  obtain ⟨-, rfl⟩ : sec = 0 ∧ _ = s := by simpa [oneParagraph, List.getElem?_singleton] using inDoc
  obtain ⟨-, rfl⟩ : page = 0 ∧ _ = p := by simpa [List.getElem?_singleton] using inSection
  exact unique

theorem plainRun_carries {n idx : Int} (carries : (plainRun n).Carries idx) : idx = n := by
  obtain ⟨-, stands | ⟨_, absurd, -⟩⟩ := carries
  · simpa [plainRun, RunBody.numbers] using stands
  · cases absurd

theorem grouped_addressable_plain :
    Addressable (oneParagraph [plainRun 0, plainRun 1]) ⟨0, 0, 0⟩
      (paragraphBlock [plainRun 0, plainRun 1]) := by
  have unique : GigaPage.Unique ⟨[paragraphBlock [plainRun 0, plainRun 1]]⟩ := by
    apply unique_of_runs
    intro run mem run' mem' idx carries carries'
    obtain ⟨n, rfl⟩ : ∃ n, run = plainRun n := by
      obtain rfl | rfl : run = plainRun 0 ∨ run = plainRun 1 := by simpa using mem
      · exact ⟨0, rfl⟩
      · exact ⟨1, rfl⟩
    obtain ⟨m, rfl⟩ : ∃ m, run' = plainRun m := by
      obtain rfl | rfl : run' = plainRun 0 ∨ run' = plainRun 1 := by simpa using mem'
      · exact ⟨0, rfl⟩
      · exact ⟨1, rfl⟩
    rw [← plainRun_carries carries, ← plainRun_carries carries']
  apply (grouped_addressable_iff (oneParagraph_unique unique) rfl).mpr
  refine ⟨fun run mem => ?_, fun cell mem => by cases mem⟩
  have grouped : groupedRuns (paragraphBlock [plainRun 0, plainRun 1]) =
      [plainRun 0, plainRun 1] := by decide
  rw [grouped] at mem
  refine Or.inr ⟨?_, ?_, ?_⟩
  · apply (Run.oneIndex_iff run).mpr
    obtain rfl | rfl : run = plainRun 0 ∨ run = plainRun 1 := by simpa using mem
    · decide
    · decide
  · exact .paragraph rfl (List.mem_map_of_mem mem) .run
  · intro idx _ addr other here _ early
    have listed := ((oneParagraph [plainRun 0, plainRun 1]).mem_walk).mpr here
    obtain ⟨rfl, -⟩ : addr = ⟨0, 0, 0⟩ ∧ other = paragraphBlock [plainRun 0, plainRun 1] := by
      simpa [GigaDocument.walk, oneParagraph] using listed
    simp [GigaBlockAddr.PageBefore] at early

/-- A span that the engine has joined from two runs. -/
def coalescedRun : Run := ⟨⟨some 0, some [some 0, some 1]⟩, none⟩

/-- The editor groups both runs of the span, and the second leads nowhere. -/
theorem coalesced_run_unaddressable :
    (oneParagraph [coalescedRun]).UniqueOnPages ∧
    (blockGroup (paragraphBlock [coalescedRun])).map PageBlockGroup.sourceIndices =
      some [0, 1] ∧
    lookup 1 (buildSourceIndexAddrMap (oneParagraph [coalescedRun])) = none ∧
    ¬Addressable (oneParagraph [coalescedRun]) ⟨0, 0, 0⟩ (paragraphBlock [coalescedRun]) := by
  have nowhere : lookup 1 (buildSourceIndexAddrMap (oneParagraph [coalescedRun])) = none := by decide
  have grouped : (blockGroup (paragraphBlock [coalescedRun])).map PageBlockGroup.indices =
      some [0, 1] := by decide
  refine ⟨oneParagraph_unique (unique_of_one_run coalescedRun), by decide, nowhere, fun addressable => ?_⟩
  obtain ⟨group, found, indices⟩ := Option.map_eq_some_iff.mp grouped
  have leads := addressable.runs group found 1 (by rw [indices]; decide)
  rw [nowhere] at leads
  cases leads

end GigaPdf
