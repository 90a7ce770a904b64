import GigaPdf.Engine.PageRanges
import GigaPdf.Lib.Grouping
import GigaPdf.Lib.Rectangles
import GigaPdf.Lib.Spacing
import Mathlib.Data.Rat.Cast.Order

/-!
# The grid of a page

`buildMatrix` of `pdf-to-xlsx.ts` lays the lines of text of a page out in rows, by bands of their
ordinates, and in columns, by anchors of their abscissas. The comparison by which the lines are
sorted is no order, so that the sort is only known to permute them.
-/

namespace GigaPdf

open Grouping Scanning Spacing
open ParagraphSession (CodeUnit newline space)

/-- A block of text, or a line of one. -/
structure TextBlock where
  elementId : String
  content : List CodeUnit
  bounds : Rect ℚ

def TextBlock.text (block : TextBlock) : List CodeUnit := trim isBlank block.content

def expandMultilineBlocks (blocks : List TextBlock) : List TextBlock :=
  blocks.flatMap fun block =>
    let lines := block.content.splitOn newline
    if lines.length ≤ 1 then [block]
    else
      lines.mapIdx fun i lineContent =>
        { elementId := block.elementId ++ "-line" ++ toString i
          content := lineContent
          bounds := { block.bounds with y := block.bounds.y + i * block.bounds.height } }

/-- The comparison of the sort: by abscissas for the lines of a band. -/
def compareBlocks (yTolerance : ℚ) (a b : TextBlock) : ℚ :=
  let dy := a.bounds.y - b.bounds.y
  if yTolerance < |dy| then dy else a.bounds.x - b.bounds.x

/-- The rows that are closed, and the open one with its reference. -/
structure Band where
  rows : List (List TextBlock)
  currentRow : List TextBlock
  bandY : ℚ

def Band.add (yTolerance : ℚ) (band : Band) (block : TextBlock) : Band :=
  if |block.bounds.y - band.bandY| ≤ yTolerance then
    { band with currentRow := band.currentRow ++ [block] }
  else ⟨band.rows ++ [band.currentRow], [block], block.bounds.y⟩

def groupIntoRows (blocks : List TextBlock) (yTolerance : ℚ) : List (List TextBlock) :=
  match blocks with
  | [] => []
  | block :: rest =>
    let band := rest.foldl (Band.add yTolerance) ⟨[], [block], block.bounds.y⟩
    band.rows ++ [band.currentRow]

def findCloseAnchor (anchors : List ℚ) (x xTolerance : ℚ) : Option Nat :=
  anchors.findIdx? fun anchor => decide (|anchor - x| ≤ xTolerance)

def openAnchor (xTolerance : ℚ) (anchors : List ℚ) (block : TextBlock) : List ℚ :=
  match findCloseAnchor anchors block.bounds.x xTolerance with
  | none => insertSorted anchors block.bounds.x
  | some _ => anchors

def buildColumnAnchors (rows : List (List TextBlock)) (xTolerance : ℚ) : List ℚ :=
  rows.foldl (fun anchors row => row.foldl (openAnchor xTolerance) anchors) []

def nearestAnchorIndex (anchors : List ℚ) (x : ℚ) : Option Nat := nearest anchors x

def fillCell (cells : List (List CodeUnit)) (colIdx : Nat) (text : List CodeUnit) :
    List (List CodeUnit) :=
  cells.modify colIdx fun existing => if 0 < existing.length then existing ++ space :: text else text

def fillRow (anchors : List ℚ) (row : List TextBlock) : List (List CodeUnit) :=
  row.foldl (fun cells block =>
    match nearestAnchorIndex anchors block.bounds.x with
    | none => cells
    | some colIdx => fillCell cells colIdx block.text) (List.replicate anchors.length [])

/-- The lines with text, sorted. -/
def sortedLines (sort : (TextBlock → TextBlock → ℚ) → List TextBlock → List TextBlock)
    (blocks : List TextBlock) (yTolerance : ℚ) : List TextBlock :=
  sort (compareBlocks yTolerance)
    ((expandMultilineBlocks blocks).filter fun block => 0 < block.text.length)

def buildMatrix (sort : (TextBlock → TextBlock → ℚ) → List TextBlock → List TextBlock)
    (blocks : List TextBlock) (yTolerance xTolerance : ℚ) : List (List (List CodeUnit)) :=
  let sorted := sortedLines sort blocks yTolerance
  if sorted.length = 0 then []
  else
    let rows := groupIntoRows sorted yTolerance
    let anchors := buildColumnAnchors rows xTolerance
    if anchors.length = 0 then [] else rows.map (fillRow anchors)

/-! ## Lines -/

theorem map_content_expand (blocks : List TextBlock) :
    (expandMultilineBlocks blocks).map TextBlock.content =
      blocks.flatMap fun block => block.content.splitOn newline := by
  rw [expandMultilineBlocks, List.map_flatMap]
  congr 1
  funext block
  simp only
  split
  · rename_i single
    obtain ⟨line, lines⟩ : ∃ line, block.content.splitOn newline = [line] := by
      cases split : block.content.splitOn newline with
      | nil => exact absurd split (List.splitOn_ne_nil _ _)
      | cons line rest =>
        rw [split, List.length_cons] at single
        obtain rfl : rest = [] := List.eq_nil_of_length_eq_zero (by omega)
        exact ⟨line, rfl⟩
    have whole : [newline].intercalate (block.content.splitOn newline) = block.content :=
      List.intercalate_splitOn newline
    rw [lines, List.intercalate_singleton] at whole
    rw [lines, whole]
    rfl
  · apply List.ext_getElem?
    intro i
    rw [List.getElem?_map, List.getElem?_mapIdx, Option.map_map]
    exact Option.map_id'

/-! ## Rows -/

theorem foldl_add (yTolerance : ℚ) (blocks : List TextBlock) (band : Band) :
    let after := blocks.foldl (Band.add yTolerance) band
    (after.rows ++ [after.currentRow]).flatten =
      (band.rows ++ [band.currentRow]).flatten ++ blocks := by
  induction blocks generalizing band with
  | nil => exact (List.append_nil _).symm
  | cons block rest ih =>
    have step : ((Band.add yTolerance band block).rows ++
        [(Band.add yTolerance band block).currentRow]).flatten =
        (band.rows ++ [band.currentRow]).flatten ++ [block] := by
      rw [Band.add]
      split <;> simp
    rw [List.foldl_cons]
    simp only [ih, step, List.append_assoc, List.singleton_append]

theorem flatten_groupIntoRows (blocks : List TextBlock) (yTolerance : ℚ) :
    (groupIntoRows blocks yTolerance).flatten = blocks := by
  cases blocks with
  | nil => rfl
  | cons block rest => exact foldl_add yTolerance rest ⟨[], [block], block.bounds.y⟩

/-! ## Anchors -/

theorem buildColumnAnchors_eq (rows : List (List TextBlock)) (xTolerance : ℚ) :
    buildColumnAnchors rows xTolerance = rows.flatten.foldl (openAnchor xTolerance) [] := by
  rw [buildColumnAnchors, List.foldl_flatten]

theorem findCloseAnchor_eq_none {anchors : List ℚ} {x xTolerance : ℚ} :
    findCloseAnchor anchors x xTolerance = none ↔ ∀ a ∈ anchors, ¬Near xTolerance x a := by
  simp [findCloseAnchor, Near]

/-- The anchors stay apart, and stay; and the line has one. -/
theorem openAnchor_spaced {xTolerance : ℚ} (nonneg : 0 ≤ xTolerance) {anchors : List ℚ}
    (spaced : Spaced xTolerance anchors) (block : TextBlock) :
    Spaced xTolerance (openAnchor xTolerance anchors block) ∧
    (∀ a ∈ anchors, a ∈ openAnchor xTolerance anchors block) ∧
    ∃ a ∈ openAnchor xTolerance anchors block, Near xTolerance block.bounds.x a := by
  rw [openAnchor]
  cases found : findCloseAnchor anchors block.bounds.x xTolerance with
  | none =>
    refine ⟨spaced_insertSorted nonneg spaced (findCloseAnchor_eq_none.mp found), ?_, ?_⟩
    · intro a mem
      exact mem_insertSorted.mpr (.inr mem)
    · refine ⟨block.bounds.x, mem_insertSorted.mpr (.inl rfl), ?_⟩
      rwa [Near, sub_self, abs_zero]
  | some i =>
    refine ⟨spaced, fun a mem => mem, ?_⟩
    by_contra none
    have absent := findCloseAnchor_eq_none.mpr fun a mem near => none ⟨a, mem, near⟩
    rw [found] at absent
    cases absent

theorem foldl_openAnchor {xTolerance : ℚ} (nonneg : 0 ≤ xTolerance) (blocks : List TextBlock)
    {anchors : List ℚ} (spaced : Spaced xTolerance anchors) :
    Spaced xTolerance (blocks.foldl (openAnchor xTolerance) anchors) ∧
    (∀ a ∈ anchors, a ∈ blocks.foldl (openAnchor xTolerance) anchors) ∧
    ∀ block ∈ blocks, ∃ a ∈ blocks.foldl (openAnchor xTolerance) anchors,
      Near xTolerance block.bounds.x a := by
  induction blocks generalizing anchors with
  | nil => exact ⟨spaced, fun a mem => mem, fun block mem => absurd mem List.not_mem_nil⟩
  | cons block rest ih =>
    obtain ⟨spaced', kept, covered⟩ := openAnchor_spaced nonneg spaced block
    obtain ⟨after, kept', covered'⟩ := ih spaced'
    rw [List.foldl_cons]
    refine ⟨after, fun a mem => kept' a (kept a mem), ?_⟩
    intro other mem
    obtain rfl | mem := List.mem_cons.mp mem
    · obtain ⟨a, opened, near⟩ := covered
      exact ⟨a, kept' a opened, near⟩
    · exact covered' other mem

/-! ## Cells -/

/-- The column of a line. -/
def columnOf (anchors : List ℚ) (block : TextBlock) : Nat :=
  (nearestAnchorIndex anchors block.bounds.x).getD 0

/-- The pieces of a cell, in the order of the row. -/
def piecesIn (anchors : List ℚ) (row : List TextBlock) (column : Nat) : List (List CodeUnit) :=
  (row.filter fun block => columnOf anchors block = column).map TextBlock.text

theorem intercalate_ne_nil {pieces : List (List CodeUnit)} (some' : pieces ≠ [])
    (nonempty : ∀ piece ∈ pieces, piece ≠ []) : [space].intercalate pieces ≠ [] := by
  obtain ⟨piece, rest, rfl⟩ := List.exists_cons_of_ne_nil some'
  have first := nonempty piece List.mem_cons_self
  cases rest with
  | nil => rwa [List.intercalate_singleton]
  | cons other rest =>
    rw [List.intercalate_cons_cons]
    simp [first]

theorem intercalate_append_singleton {pieces : List (List CodeUnit)} (some' : pieces ≠ [])
    (piece : List CodeUnit) :
    [space].intercalate (pieces ++ [piece]) = [space].intercalate pieces ++ space :: piece := by
  induction pieces with
  | nil => exact absurd rfl some'
  | cons first rest ih =>
    cases rest with
    | nil => simp [List.intercalate_cons_cons]
    | cons second rest =>
      have later := ih (List.cons_ne_nil second rest)
      rw [List.cons_append] at later
      rw [List.cons_append, List.cons_append, List.intercalate_cons_cons, later,
        List.intercalate_cons_cons]
      simp only [List.append_assoc]

/-- A piece that comes to a cell. -/
theorem fillCell_intercalate (existing : Nat → List (List CodeUnit)) (n colIdx : Nat)
    (nonempty : ∀ i, ∀ piece ∈ existing i, piece ≠ []) (piece : List CodeUnit) :
    fillCell ((List.range n).map fun i => [space].intercalate (existing i)) colIdx piece =
      (List.range n).map fun i =>
        [space].intercalate (if colIdx = i then existing i ++ [piece] else existing i) := by
  have joined : ∀ i,
      (if 0 < ([space].intercalate (existing i)).length then
        [space].intercalate (existing i) ++ space :: piece else piece) =
      [space].intercalate (existing i ++ [piece]) := by
    intro i
    by_cases empty : existing i = []
    · rw [empty]
      simp [List.intercalate_singleton]
    · rw [if_pos (List.length_pos_of_ne_nil (intercalate_ne_nil empty (nonempty i))),
        intercalate_append_singleton empty]
  apply List.ext_getElem?
  intro i
  rw [fillCell, List.getElem?_modify, List.getElem?_map, List.getElem?_map]
  cases inside : (List.range n)[i]? with
  | none => rfl
  | some j =>
    obtain ⟨bound, rfl⟩ := List.getElem?_eq_some_iff.mp inside
    rw [List.getElem_range]
    by_cases here : colIdx = i
    · simp only [if_pos here, Option.map_some, Option.map_eq_map, joined]
    · simp only [if_neg here, Option.map_some, Option.map_eq_map]

theorem fillRow_eq {anchors : List ℚ} (nonempty : anchors ≠ []) {row : List TextBlock}
    (dark : ∀ block ∈ row, block.text ≠ []) :
    fillRow anchors row =
      (List.range anchors.length).map fun i => [space].intercalate (piecesIn anchors row i) := by
  induction row using List.reverseRecOn with
  | nil =>
    apply List.ext_getElem?
    intro i
    simp [fillRow, piecesIn]
  | append_singleton row block ih =>
    obtain ⟨colIdx, found, -⟩ := @exists_nearest _ _ _ block.bounds.x _ nonempty
    have column : columnOf anchors block = colIdx := by
      rw [columnOf, nearestAnchorIndex, found]
      rfl
    have before := ih fun other mem => dark other (List.mem_append_left _ mem)
    have step : fillRow anchors (row ++ [block]) =
        fillCell (fillRow anchors row) colIdx block.text := by
      rw [fillRow, List.foldl_append, List.foldl_cons, List.foldl_nil, nearestAnchorIndex, found]
      rfl
    rw [step, before, fillCell_intercalate]
    · apply List.map_congr_left
      intro i _
      congr 1
      rw [piecesIn, piecesIn, List.filter_append, List.map_append]
      by_cases here : colIdx = i
      · rw [if_pos here, List.filter_cons_of_pos (by simp [column, here])]
        rfl
      · rw [if_neg here, List.filter_cons_of_neg (by simp [column, here])]
        exact (List.append_nil _).symm
    · intro i piece mem
      obtain ⟨other, listed, rfl⟩ := List.mem_map.mp mem
      exact dark other (List.mem_append_left _ (List.mem_of_mem_filter listed))

/-! ## The matrix -/

/-- The lines of the page with text, trimmed. -/
def linesOfText (blocks : List TextBlock) : List (List CodeUnit) :=
  ((blocks.flatMap fun block => block.content.splitOn newline).map (trim isBlank)).filter
    fun line => 0 < line.length

/-- What `sort` is known to do. -/
def Permutes (sort : (TextBlock → TextBlock → ℚ) → List TextBlock → List TextBlock) : Prop :=
  ∀ compare blocks, (sort compare blocks).Perm blocks

section
variable {sort : (TextBlock → TextBlock → ℚ) → List TextBlock → List TextBlock}

theorem map_text_sortedLines (permutes : Permutes sort) (blocks : List TextBlock)
    (yTolerance : ℚ) :
    ((sortedLines sort blocks yTolerance).map TextBlock.text).Perm (linesOfText blocks) := by
  have lines : linesOfText blocks =
      ((expandMultilineBlocks blocks).filter fun block => 0 < block.text.length).map
        TextBlock.text := by
    rw [linesOfText, ← map_content_expand, List.map_map, List.filter_map]
    rfl
  rw [lines]
  exact (permutes _ _).map _

theorem dark_sortedLines (permutes : Permutes sort) {blocks : List TextBlock} {yTolerance : ℚ}
    {block : TextBlock} (mem : block ∈ sortedLines sort blocks yTolerance) : block.text ≠ [] := by
  have listed := List.of_mem_filter ((permutes _ _).mem_iff.mp mem)
  exact List.ne_nil_of_length_pos (of_decide_eq_true listed)

/-- The pieces of the cells are the texts of the lines. -/
theorem pieces_perm {anchors : List ℚ} (rows : List (List TextBlock))
    (inside : ∀ block ∈ rows.flatten, columnOf anchors block < anchors.length) :
    (rows.flatMap fun row => (List.range anchors.length).flatMap (piecesIn anchors row)).Perm
      (rows.flatten.map TextBlock.text) := by
  induction rows with
  | nil => exact .nil
  | cons row rows ih =>
    rw [List.flatten_cons] at inside
    rw [List.flatMap_cons, List.flatten_cons, List.map_append]
    have here : ((List.range anchors.length).flatMap (piecesIn anchors row)).Perm
        (row.map TextBlock.text) := by
      have numbered := flatMap_filter_perm (columnOf anchors)
        fun block mem => inside block (List.mem_append_left _ mem)
      have mapped := numbered.map TextBlock.text
      rwa [List.map_flatMap] at mapped
    exact here.append (ih fun block mem => inside block (List.mem_append_right _ mem))

/-- Every line has an anchor within the tolerance, in its column. -/
theorem exists_anchor {rows : List (List TextBlock)} {xTolerance : ℚ} (nonneg : 0 ≤ xTolerance)
    {block : TextBlock} (mem : block ∈ rows.flatten) :
    ∃ anchor, (buildColumnAnchors rows xTolerance)[columnOf (buildColumnAnchors rows xTolerance)
      block]? = some anchor ∧ |anchor - block.bounds.x| ≤ xTolerance := by
  obtain ⟨-, -, covered⟩ := foldl_openAnchor nonneg rows.flatten
    (List.Pairwise.nil : Spaced xTolerance [])
  rw [← buildColumnAnchors_eq] at covered
  obtain ⟨a, opened, near⟩ := covered block mem
  obtain ⟨i, found, nearest⟩ := exists_nearest (List.ne_nil_of_mem opened)
  have column : columnOf (buildColumnAnchors rows xTolerance) block = i := by
    rw [columnOf, nearestAnchorIndex, found]
    rfl
  rw [column]
  exact nearest.near ⟨a, opened, near⟩

theorem buildMatrix_eq (permutes : Permutes sort) (blocks : List TextBlock) (yTolerance : ℚ)
    {xTolerance : ℚ} (nonneg : 0 ≤ xTolerance) :
    let rows := groupIntoRows (sortedLines sort blocks yTolerance) yTolerance
    let anchors := buildColumnAnchors rows xTolerance
    buildMatrix sort blocks yTolerance xTolerance = rows.map fun row =>
      (List.range anchors.length).map fun i => [space].intercalate (piecesIn anchors row i) := by
  intro rows anchors
  have flat : rows.flatten = sortedLines sort blocks yTolerance := flatten_groupIntoRows _ _
  by_cases empty : sortedLines sort blocks yTolerance = []
  · have nothing : rows = [] := by simp only [rows, empty, groupIntoRows]
    simp only [buildMatrix, empty, List.length_nil, if_true, nothing, List.map_nil]
  · obtain ⟨block, mem⟩ := List.exists_mem_of_ne_nil _ empty
    rw [← flat] at mem
    obtain ⟨anchor, here, -⟩ := exists_anchor nonneg mem
    have some' : anchors ≠ [] := List.ne_nil_of_mem (List.mem_of_getElem? here)
    have unfolded : buildMatrix sort blocks yTolerance xTolerance = rows.map (fillRow anchors) := by
      simp only [buildMatrix]
      rw [if_neg (fun none => empty (List.eq_nil_of_length_eq_zero none)),
        if_neg (fun none => some' (List.eq_nil_of_length_eq_zero none))]
    rw [unfolded]
    apply List.map_congr_left
    intro row listed
    apply fillRow_eq some'
    intro other inRow
    apply dark_sortedLines permutes
    rw [← flat]
    exact List.mem_flatten_of_mem listed inRow

/-- **The grid of a page**: the anchors are apart, every line has one within the tolerance, and the
cells of a row hold the texts of its lines by their anchors and in their order, so that no text is
lost and none is twice there. -/
theorem buildMatrix_keeps_text (permutes : Permutes sort) (blocks : List TextBlock)
    (yTolerance : ℚ) {xTolerance : ℚ} (nonneg : 0 ≤ xTolerance) :
    let rows := groupIntoRows (sortedLines sort blocks yTolerance) yTolerance
    let anchors := buildColumnAnchors rows xTolerance
    let matrix := buildMatrix sort blocks yTolerance xTolerance
    (anchors.Pairwise fun a b => a < b ∧ xTolerance < b - a) ∧
    (∀ cells ∈ matrix, cells.length = anchors.length) ∧
    (∀ row ∈ rows, ∀ block ∈ row, ∃ anchor,
      anchors[columnOf anchors block]? = some anchor ∧ |anchor - block.bounds.x| ≤ xTolerance) ∧
    (matrix = rows.map fun row =>
      (List.range anchors.length).map fun i => [space].intercalate (piecesIn anchors row i)) ∧
    (rows.flatMap fun row => (List.range anchors.length).flatMap (piecesIn anchors row)).Perm
      (linesOfText blocks) := by
  intro rows anchors matrix
  have flat : rows.flatten = sortedLines sort blocks yTolerance := flatten_groupIntoRows _ _
  have assigned : ∀ block ∈ rows.flatten, ∃ anchor,
      anchors[columnOf anchors block]? = some anchor ∧
      |anchor - block.bounds.x| ≤ xTolerance := fun block mem => exists_anchor nonneg mem
  have filled : matrix = rows.map fun row =>
      (List.range anchors.length).map fun i => [space].intercalate (piecesIn anchors row i) :=
    buildMatrix_eq permutes blocks yTolerance nonneg
  refine ⟨?_, ?_, ?_, filled, ?_⟩
  · obtain ⟨spaced, -⟩ := foldl_openAnchor nonneg rows.flatten
      (List.Pairwise.nil : Spaced xTolerance [])
    rwa [← buildColumnAnchors_eq] at spaced
  · intro cells mem
    rw [filled] at mem
    obtain ⟨row, -, rfl⟩ := List.mem_map.mp mem
    rw [List.length_map, List.length_range]
  · intro row listed block mem
    exact assigned block (List.mem_flatten_of_mem listed mem)
  · have inside : ∀ block ∈ rows.flatten, columnOf anchors block < anchors.length := by
      intro block mem
      obtain ⟨anchor, here, -⟩ := assigned block mem
      exact (List.getElem?_eq_some_iff.mp here).1
    have pieces := pieces_perm rows inside
    rw [flat] at pieces
    exact pieces.trans (map_text_sortedLines permutes blocks yTolerance)

end

/-! ## A page of two blocks -/

/-- A stable sort, as the engines of the language have it. -/
def stableSort (compare : TextBlock → TextBlock → ℚ) (blocks : List TextBlock) : List TextBlock :=
  blocks.mergeSort fun a b => decide (compare a b ≤ 0)

/-- A block of two lines, and one beside its first line. -/
def twoBlocks : List TextBlock :=
  [⟨"a", ParagraphSession.codeUnits "left\nbelow", ⟨10, 0, 40, 12⟩⟩,
    ⟨"b", ParagraphSession.codeUnits " right ", ⟨100, 1, 40, 12⟩⟩]

theorem buildMatrix_keeps_text_two_blocks :
    let rows := groupIntoRows (sortedLines stableSort twoBlocks 3) 3
    let anchors := buildColumnAnchors rows 5
    (anchors.Pairwise fun a b => a < b ∧ 5 < b - a) ∧
    (∀ cells ∈ buildMatrix stableSort twoBlocks 3 5, cells.length = anchors.length) ∧
    (rows.flatMap fun row => (List.range anchors.length).flatMap (piecesIn anchors row)).Perm
      (linesOfText twoBlocks) := by
  obtain ⟨apart, widths, -, -, pieces⟩ := @buildMatrix_keeps_text stableSort
    (fun _ blocks => List.mergeSort_perm blocks _) twoBlocks 3 5 (by norm_num)
  exact ⟨apart, widths, pieces⟩

end GigaPdf
