import GigaPdf.Lib.Coalescing
import GigaPdf.Lib.Comparators
import GigaPdf.Lib.Lines
import Mathlib.Algebra.Order.Ring.Rat
import Mathlib.Data.List.SplitBy
import Mathlib.Tactic.Linarith
import Mathlib.Tactic.NormNum

/-!
# Text lines

`groupRunsIntoLines` and `coalesceLineRuns` of `text-extractor.ts`. The comparator of the sort looks
at the height of two runs, or at their place within a line when the heights are close, and a run is
on a line when it is close to the first run of the line. `sort` stands for any sort that does what
the language lays down.
-/

namespace GigaPdf.TextLines

open Comparators Lines

structure TextRun where
  str : String
  fontKey : String
  fontSize : ℚ
  pdfY : ℚ
  width : ℚ
  webX : ℚ
deriving DecidableEq

def LINE_Y_TOLERANCE : ℚ := 2

def BLOCK_X_GAP : ℚ := 6

def compareRuns (a b : TextRun) : ℚ :=
  let dy := b.pdfY - a.pdfY
  if LINE_Y_TOLERANCE < |dy| then dy else a.webX - b.webX

def onLineOf (lineRef run : TextRun) : Bool := |run.pdfY - lineRef.pdfY| ≤ LINE_Y_TOLERANCE

def groupRunsIntoLines (sort : List TextRun → List TextRun) (runs : List TextRun) :
    List (List TextRun) :=
  if runs.isEmpty then [] else lines onLineOf (sort runs)

/-- The run goes to the group of the run in front of it. -/
def continues (prev curr : TextRun) : Bool :=
  let sameFont := prev.fontKey = curr.fontKey ∧ |prev.fontSize - curr.fontSize| < 1 / 2
  let closeEnough := curr.webX - (prev.webX + prev.width) ≤ BLOCK_X_GAP
  sameFont ∧ closeEnough

def coalesceLineRuns (line : List TextRun) : List (List TextRun) := line.splitBy continues

/-! ## What the lines are for -/

structure Grouped (sort : List TextRun → List TextRun) (runs : List TextRun) : Prop where
  partition : (groupRunsIntoLines sort runs).flatten.Perm runs
  near : ∀ line ∈ groupRunsIntoLines sort runs, ∃ first more, line = first :: more ∧
    ∀ run ∈ line, |run.pdfY - first.pdfY| ≤ LINE_Y_TOLERANCE
  sorted : ∀ line ∈ groupRunsIntoLines sort runs, line.Pairwise fun a b => a.webX ≤ b.webX
  topToBottom : (groupRunsIntoLines sort runs).Pairwise fun m n =>
    ∀ a ∈ m.head?, ∀ b ∈ n.head?, b.pdfY < a.pdfY
  invariant : ∀ runs', runs'.Perm runs →
    groupRunsIntoLines sort runs' = groupRunsIntoLines sort runs

abbrev Before (a b : TextRun) : Prop := compareRuns a b < 0

/-- The comparator orders the runs, and on no line is a run above another by more than the tolerance
and to the right of it. -/
structure Aligned (runs : List TextRun) : Prop where
  apart : ∀ a ∈ runs, ∀ b ∈ runs, a ≠ b → compareRuns a b ≠ 0
  ordered : ∀ a ∈ runs, ∀ b ∈ runs, ∀ c ∈ runs, Before a b → Before b c → Before a c
  straight : ∀ first, Leads onLineOf Before runs first → ∀ a ∈ runs, ∀ b ∈ runs,
    OnLine onLineOf Before runs first a → OnLine onLineOf Before runs first b →
      LINE_Y_TOLERANCE < a.pdfY - b.pdfY → a.webX ≤ b.webX

/-! ## The comparator -/

theorem compareRuns_swap (a b : TextRun) : compareRuns b a = -compareRuns a b := by
  simp only [compareRuns]
  rw [abs_sub_comm a.pdfY]
  split <;> linarith

theorem compareRuns_self (a : TextRun) : compareRuns a a = 0 := by
  have swapped := compareRuns_swap a a
  linarith

theorem Aligned.consistent {runs : List TextRun} (aligned : Aligned runs) :
    Consistent compareRuns runs where
  self a _ := compareRuns_self a
  symm a _ b _ := by
    rw [compareRuns_swap a b]
    exact neg_pos.symm
  lt_trans := aligned.ordered
  eq_trans a ha b hb c hc first next := by
    have same : a = b := by_contra fun other => aligned.apart a ha b hb other first
    rwa [same]

/-- Two runs in order: the first is higher up, or they are close in height and it is to the left. -/
theorem before_iff (a b : TextRun) :
    Before a b ↔ LINE_Y_TOLERANCE < a.pdfY - b.pdfY ∨
      |b.pdfY - a.pdfY| ≤ LINE_Y_TOLERANCE ∧ a.webX < b.webX := by
  simp only [Before, compareRuns]
  split
  · rename_i far
    rw [lt_abs] at far
    simp only [LINE_Y_TOLERANCE] at *
    constructor
    · intro above
      left
      rcases far with far | far <;> linarith
    · rintro (above | ⟨close, -⟩)
      · linarith
      · rw [abs_le] at close
        rcases far with far | far <;> linarith
  · rename_i close
    have close := not_lt.mp close
    constructor
    · intro left_of
      exact .inr ⟨close, by linarith⟩
    · rintro (above | ⟨-, left_of⟩)
      · have high := (abs_le.mp close).1
        linarith
      · linarith

/-! ## Lines of aligned runs -/

theorem groupRunsIntoLines_eq {sort : List TextRun → List TextRun}
    (conforming : Conforming compareRuns sort) (runs : List TextRun) :
    groupRunsIntoLines sort runs = lines onLineOf (sort runs) := by
  rw [groupRunsIntoLines]
  split
  · rename_i empty
    have sorted := conforming.perm runs
    rw [List.isEmpty_iff.mp empty] at sorted ⊢
    rw [sorted.eq_nil]
    rfl
  · rfl

theorem flatten_groupRunsIntoLines {sort : List TextRun → List TextRun}
    (conforming : Conforming compareRuns sort) (runs : List TextRun) :
    (groupRunsIntoLines sort runs).flatten = sort runs := by
  rw [groupRunsIntoLines_eq conforming, flatten_lines]

/-- No run is lost on the way to the blocks of the lines. -/
theorem flatten_blocks_perm {sort : List TextRun → List TextRun}
    (conforming : Conforming compareRuns sort) (runs : List TextRun) :
    ((groupRunsIntoLines sort runs).flatMap coalesceLineRuns).flatten.Perm runs := by
  have blocks (l : List (List TextRun)) : (l.flatMap coalesceLineRuns).flatten = l.flatten := by
    induction l with
    | nil => rfl
    | cons line l ih =>
      rw [List.flatMap_cons, List.flatten_append, ih, coalesceLineRuns, List.flatten_splitBy,
        List.flatten_cons]
  rw [blocks, flatten_groupRunsIntoLines conforming]
  exact conforming.perm runs

theorem line_sublist {line s : List TextRun} (mem : line ∈ lines onLineOf s) :
    line.Sublist s := by
  have part := List.sublist_flatten_of_mem mem
  rwa [flatten_lines] at part

theorem before_asymm (a b : TextRun) (first : Before a b) : ¬Before b a := by
  simp only [Before, compareRuns_swap a b] at first ⊢
  linarith

theorem Aligned.strict {runs : List TextRun} (aligned : Aligned runs) :
    ∀ a ∈ runs, ∀ b ∈ runs, compareRuns a b = 0 → a = b :=
  fun a ha b hb tie => by_contra fun other => aligned.apart a ha b hb other tie

theorem Aligned.line_sorted {runs : List TextRun} (aligned : Aligned runs) {line s : List TextRun}
    (same : ∀ a, a ∈ s ↔ a ∈ runs) (sorted : s.Pairwise Before)
    (mem : line ∈ lines onLineOf s) : line.Pairwise fun a b => a.webX ≤ b.webX := by
  have part := sorted.sublist (line_sublist mem)
  obtain ⟨first, more, rfl, leads, on⟩ := mem_lines sorted (fun a _ b _ => before_asymm a b) mem
  have close : ∀ run ∈ more, |run.pdfY - first.pdfY| ≤ LINE_Y_TOLERANCE :=
    fun run inside => of_decide_eq_true (on run inside).close
  refine part.imp_of_mem fun {a b} ha hb ordered => ?_
  obtain above | ⟨-, left_of⟩ := (before_iff a b).mp ordered
  · -- neither of two runs at such a distance is the first
    obtain rfl | inside := List.mem_cons.mp ha
    · obtain rfl | inside' := List.mem_cons.mp hb
      · exact le_rfl
      · have low := (abs_le.mp (close b inside')).1
        linarith
    · obtain rfl | inside' := List.mem_cons.mp hb
      · have high := (abs_le.mp (close a inside)).2
        linarith
      · have all : ∀ run ∈ more, run ∈ runs := fun run listed =>
          (same run).mp ((line_sublist mem).mem (List.mem_cons_of_mem _ listed))
        exact aligned.straight first (leads.congr same) a (all a inside) b (all b inside')
          ((on a inside).congr same) ((on b inside').congr same) above
  · exact left_of.le

theorem Aligned.grouped {runs : List TextRun} (aligned : Aligned runs) (nodup : runs.Nodup)
    {sort : List TextRun → List TextRun} (conforming : Conforming compareRuns sort) :
    Grouped sort runs where
  partition := by
    rw [flatten_groupRunsIntoLines conforming]
    exact conforming.perm runs
  near line mem := by
    rw [groupRunsIntoLines_eq conforming] at mem
    obtain ⟨first, more, rfl, near⟩ := near_of_mem_lines mem
    refine ⟨first, more, rfl, fun run inside => ?_⟩
    obtain rfl | inside := List.mem_cons.mp inside
    · simp [LINE_Y_TOLERANCE]
    · exact of_decide_eq_true (near run inside)
  sorted line mem := by
    rw [groupRunsIntoLines_eq conforming] at mem
    exact aligned.line_sorted (fun a => (conforming.perm runs).mem_iff)
      (conforming.strict aligned.consistent aligned.strict nodup) mem
  topToBottom := by
    rw [groupRunsIntoLines_eq conforming]
    have sorted := conforming.strict aligned.consistent aligned.strict nodup
    refine pairwise_heads sorted (fun a b c first next => next.trans first) ?_
    intro a b ordered far
    have far : LINE_Y_TOLERANCE < |b.pdfY - a.pdfY| := not_le.mp (of_decide_eq_false far)
    obtain above | ⟨close, -⟩ := (before_iff a b).mp ordered
    · simp only [LINE_Y_TOLERANCE] at above
      linarith
    · exact absurd close far.not_ge
  invariant runs' perm := by
    have same := conforming.perm_eq aligned.consistent aligned.strict perm
    rw [groupRunsIntoLines_eq conforming, groupRunsIntoLines_eq conforming, same]

/-! ## When the lines are what they are for -/

theorem aligned_of_grouped {runs : List TextRun} (nodup : runs.Nodup)
    (grouped : Grouped (lazySort compareRuns) runs) : Aligned runs := by
  have conforming : Conforming compareRuns (lazySort compareRuns) := conforming_lazySort
  have perm := conforming.perm runs
  obtain ⟨consistent, apart⟩ := consistent_of_perm_eq nodup compareRuns_self fun runs' perm => by
    rw [← flatten_groupRunsIntoLines conforming, ← flatten_groupRunsIntoLines conforming,
      grouped.invariant runs' perm]
  have sorted : (lazySort compareRuns runs).Pairwise Before :=
    conforming.strict consistent apart nodup
  have asymm : ∀ a ∈ lazySort compareRuns runs, ∀ b ∈ lazySort compareRuns runs,
      Before a b → ¬Before b a := fun a _ b _ => before_asymm a b
  refine ⟨fun a ha b hb other tie => other (apart a ha b hb tie), consistent.lt_trans, ?_⟩
  intro first leads a ha b hb on on' above
  have same (run : TextRun) : run ∈ runs ↔ run ∈ lazySort compareRuns runs := perm.mem_iff.symm
  obtain ⟨line, mem, whole⟩ := (leads.congr same).mem_lines sorted asymm
  have inside := whole a ((same a).mp ha) (on.congr same)
  have inside' := whole b ((same b).mp hb) (on'.congr same)
  have ordered : Before a b := (before_iff a b).mpr (.inl above)
  have other : a ≠ b := by
    rintro rfl
    exact before_asymm a a ordered ordered
  -- of the two orders on the line, the comparator admits one
  have both := (sorted.sublist (line_sublist mem)).and
    (grouped.sorted line (groupRunsIntoLines_eq conforming runs ▸ mem))
  obtain ⟨-, left_of⟩ | ⟨wrong, -⟩ := Reordering.pairwise_either both inside inside' other
  · exact left_of
  · exact absurd wrong (before_asymm a b ordered)

/-- On every engine the lines are as they should be, for exactly the runs that are aligned. -/
theorem groupRunsIntoLines_grouped_iff {runs : List TextRun}
    (distinct : runs.Pairwise fun a b => (a.webX, a.pdfY) ≠ (b.webX, b.pdfY)) :
    (∀ sort, Conforming compareRuns sort → Grouped sort runs) ↔ Aligned runs := by
  have nodup : runs.Nodup := distinct.imp fun other same => other (by rw [same])
  constructor
  · intro every
    exact aligned_of_grouped nodup (every _ conforming_lazySort)
  · intro aligned sort conforming
    exact aligned.grouped nodup conforming

def runAt (webX pdfY : ℚ) : TextRun := ⟨"run", "Helvetica", 12, pdfY, 40, webX⟩

theorem compareRuns_neg (a b : TextRun) : compareRuns a b < 0 ↔ 0 < compareRuns b a := by
  rw [compareRuns_swap a b]
  exact neg_pos.symm

/-- A title over two words of one line. -/
theorem groupRunsIntoLines_grouped_iff_title :
    let runs := [runAt 50 80, runAt 0 100, runAt 0 81]
    Aligned runs ∧ ∀ sort, Conforming compareRuns sort → Grouped sort runs := by
  intro runs
  have aligned : Aligned runs := by
    refine ⟨?_, ?_, ?_⟩
    · simp [runs, runAt, compareRuns, LINE_Y_TOLERANCE]
      norm_num
    · simp [runs, runAt, Before, compareRuns, LINE_Y_TOLERANCE]
      norm_num
    · intro first _ a ha b hb on on' above
      have close := abs_le.mp (of_decide_eq_true on.close)
      have close' := abs_le.mp (of_decide_eq_true on'.close)
      simp only [runs, List.mem_cons, List.not_mem_nil, or_false] at ha hb
      simp only [LINE_Y_TOLERANCE] at *
      have low : b.pdfY ≤ a.pdfY - 2 ∧ a.pdfY ≤ b.pdfY + 4 := ⟨by linarith, by linarith⟩
      rcases ha with rfl | rfl | rfl <;> rcases hb with rfl | rfl | rfl <;>
        norm_num [runAt] at low
  have distinct : runs.Pairwise fun a b => (a.webX, a.pdfY) ≠ (b.webX, b.pdfY) := by
    simp [runs, runAt]
  exact ⟨aligned, (groupRunsIntoLines_grouped_iff distinct).mpr aligned⟩

/-- Two words near the first run of a line, further from each other than the tolerance: the one on
the right is higher, and comes first. -/
theorem groupRunsIntoLines_unsorted :
    let runs := [runAt 0 100, runAt 100 (203 / 2), runAt 50 (197 / 2)]
    (runs.Pairwise fun a b => (a.webX, a.pdfY) ≠ (b.webX, b.pdfY)) ∧
      ∀ sort, Conforming compareRuns sort →
        groupRunsIntoLines sort runs = [runs] ∧ ¬Grouped sort runs := by
  intro runs
  have sorted : runs.Pairwise Before := by
    simp [runs, runAt, compareRuns, LINE_Y_TOLERANCE]
    norm_num
  refine ⟨by simp [runs, runAt], fun sort conforming => ?_⟩
  have one : groupRunsIntoLines sort runs = [runs] := by
    rw [groupRunsIntoLines_eq conforming,
      conforming.eq_self compareRuns_self compareRuns_neg sorted]
    simp [runs, lines, linesFrom, onLineOf, runAt, LINE_Y_TOLERANCE]
    norm_num
  refine ⟨one, fun grouped => ?_⟩
  have wrong := grouped.sorted runs (by rw [one]; exact List.mem_singleton_self runs)
  simp [runs, runAt] at wrong
  norm_num at wrong

end GigaPdf.TextLines
