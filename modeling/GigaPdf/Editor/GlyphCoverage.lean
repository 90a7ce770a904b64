import GigaPdf.Lib.Bytes
import Mathlib.Data.List.Sort
import Mathlib.Order.Interval.Finset.Nat

/-!
# The codepoints of an embedded font

`parseCmapCodepoints` of `packages/editor/src/hooks/use-embedded-fonts.ts` reads which codepoints an
embedded font maps, so that the subset that covers a run can be chosen for it. The file is whatever
the document brought, and a read behind its end would throw and lose the rest of the font.
-/

namespace GigaPdf.GlyphCoverage

open Bytes

/-- What was added before a read behind the end of the file. -/
abbrev Reading := Except (Finset Nat)

def read (out : Finset Nat) : Option Nat → Reading Nat
  | some n => .ok n
  | none => .error out

def add (out : Finset Nat) (c glyph : Nat) : Finset Nat :=
  if glyph ≠ 0 then insert c out else out

def readByte (view : List UInt8) (sub : Nat) (out : Finset Nat) (c : Nat) :
    Reading (Finset Nat) := do
  let glyph ← read out (getUint8 view (sub + 6 + c))
  pure (add out c glyph)

/-- A byte for each of the first codepoints. -/
def readFormat0 (view : List UInt8) (sub : Nat) (out : Finset Nat) : Reading (Finset Nat) :=
  if sub + 6 + 256 > view.length then .ok out
  else (List.range 256).foldlM (readByte view sub) out

/-- A codepoint of a segment, whose entry of `idRangeOffset` stands at `entry`. -/
def readCodepoint (view : List UInt8) (entry start delta rangeOffset : Nat) (out : Finset Nat)
    (c : Nat) : Reading (Finset Nat) :=
  if rangeOffset = 0 then pure (add out c ((c + delta) % 65536))
  else
    let idx := entry + rangeOffset + (c - start) * 2
    if idx + 2 > view.length then pure out
    else do
      let g ← read out (getUint16 view idx)
      pure (add out c (if g = 0 then 0 else (g + delta) % 65536))

def readSegment (view : List UInt8) (endBase startBase deltaBase rangeBase : Nat)
    (out : Finset Nat) (s : Nat) : Reading (Finset Nat) := do
  let stop ← read out (getUint16 view (endBase + s * 2))
  let start ← read out (getUint16 view (startBase + s * 2))
  let delta ← read out (getUint16 view (deltaBase + s * 2))
  let rangeOffset ← read out (getUint16 view (rangeBase + s * 2))
  if start > stop then pure out
  else
    -- 0xffff ends the table and is never a glyph
    let hardEnd := if stop = 0xffff then 0xfffe else stop
    (List.range' start (hardEnd + 1 - start)).foldlM
      (readCodepoint view (rangeBase + s * 2) start delta rangeOffset) out

def readFormat4 (view : List UInt8) (sub : Nat) (out : Finset Nat) : Reading (Finset Nat) :=
  if sub + 14 > view.length then .ok out
  else do
    let segCountX2 ← read out (getUint16 view (sub + 6))
    let segCount := segCountX2 / 2
    let endBase := sub + 14
    let startBase := endBase + segCountX2 + 2
    let deltaBase := startBase + segCountX2
    let rangeBase := deltaBase + segCountX2
    if rangeBase + segCountX2 > view.length then pure out
    else (List.range segCount).foldlM (readSegment view endBase startBase deltaBase rangeBase) out

def readTrimmed (view : List UInt8) (sub first : Nat) (out : Finset Nat) (i : Nat) :
    Reading (Finset Nat) := do
  let glyph ← read out (getUint16 view (sub + 10 + i * 2))
  pure (add out (first + i) glyph)

def readFormat6 (view : List UInt8) (sub : Nat) (out : Finset Nat) : Reading (Finset Nat) :=
  if sub + 10 > view.length then .ok out
  else do
    let first ← read out (getUint16 view (sub + 6))
    let count ← read out (getUint16 view (sub + 8))
    if sub + 10 + count * 2 > view.length then pure out
    else (List.range count).foldlM (readTrimmed view sub first) out

def readGroup (view : List UInt8) (sub : Nat) (out : Finset Nat) (i : Nat) :
    Reading (Finset Nat) := do
  let g := sub + 16 + i * 12
  let start ← read out (getUint32 view g)
  let stop ← read out (getUint32 view (g + 4))
  if start > stop ∨ stop - start > 0x10ffff then pure out
  else pure (out ∪ Finset.Icc start stop)

def readFormat12 (view : List UInt8) (sub : Nat) (out : Finset Nat) : Reading (Finset Nat) :=
  if sub + 16 > view.length then .ok out
  else do
    let nGroups ← read out (getUint32 view (sub + 12))
    let maxGroups := min nGroups ((view.length - (sub + 16)) / 12)
    (List.range maxGroups).foldlM (readGroup view sub) out

def readCmapSubtable (view : List UInt8) (sub : Nat) (out : Finset Nat) : Reading (Finset Nat) :=
  if sub + 2 > view.length then .ok out
  else do
    let format ← read out (getUint16 view sub)
    if format = 0 then readFormat0 view sub out
    else if format = 4 then readFormat4 view sub out
    else if format = 6 then readFormat6 view sub out
    else if format = 12 then readFormat12 view sub out
    else pure out

/-- The offset in the record of the first `cmap` table. -/
def findCmap (view : List UInt8) : (left i : Nat) → Reading (Option Nat)
  | 0, _ => .ok none
  | left + 1, i => do
    let record := 12 + i * 16
    if record + 16 > view.length then pure none
    else
      let tag ← read ∅ (getUint32 view record)
      if tag = 0x636d6170 then
        let offset ← read ∅ (getUint32 view (record + 8))
        pure (some offset)
      else findCmap view left (i + 1)

def score (platform encoding : Nat) : Int :=
  if platform = 3 ∧ encoding = 10 then 4
  else if platform = 3 ∧ encoding = 1 then 3
  else if platform = 0 then 2
  else if platform = 3 ∧ encoding = 0 then 1
  else -1

def bestSubtable (view : List UInt8) (cmapOffset : Nat) :
    (left i : Nat) → (best : Option Nat) → (bestScore : Int) → Reading (Option Nat)
  | 0, _, best, _ => .ok best
  | left + 1, i, best, bestScore => do
    let record := cmapOffset + 4 + i * 8
    if record + 8 > view.length then pure best
    else
      let platform ← read ∅ (getUint16 view record)
      let encoding ← read ∅ (getUint16 view (record + 2))
      let offset ← read ∅ (getUint32 view (record + 4))
      let sub := cmapOffset + offset
      if score platform encoding > bestScore ∧ 0 < sub ∧ sub < view.length then
        bestSubtable view cmapOffset left (i + 1) (some sub) (score platform encoding)
      else bestSubtable view cmapOffset left (i + 1) best bestScore

/-- The body of the `try`. -/
def parse (view : List UInt8) : Reading (Finset Nat) :=
  if view.length < 12 then .ok ∅
  else do
    let numTables ← read ∅ (getUint16 view 4)
    match ← findCmap view numTables 0 with
    | none => pure ∅
    | some cmapOffset =>
      if cmapOffset + 4 > view.length then pure ∅
      else
        let numSub ← read ∅ (getUint16 view (cmapOffset + 2))
        match ← bestSubtable view cmapOffset numSub 0 none (-1) with
        | none => pure ∅
        | some sub => readCmapSubtable view sub ∅

def parseCmapCodepoints (view : List UInt8) : Finset Nat :=
  match parse view with
  | .ok out => out
  | .error out => out

theorem mem_add {out : Finset Nat} {c b glyph : Nat} :
    b ∈ add out c glyph ↔ b ∈ out ∨ (b = c ∧ glyph ≠ 0) := by
  unfold add
  split
  · rename_i mapped
    simp [mapped, or_comm]
  · rename_i unmapped
    simp [not_not.mp unmapped]

/-- The glyph a segment gives a codepoint, zero where it has none. -/
def segmentGlyph (view : List UInt8) (entry start delta rangeOffset c : Nat) : Nat :=
  if rangeOffset = 0 then (c + delta) % 65536
  else
    match getUint16 view (entry + rangeOffset + (c - start) * 2) with
    | some g => if g = 0 then 0 else (g + delta) % 65536
    | none => 0

theorem readCodepoint_ok (view : List UInt8) (entry start delta rangeOffset : Nat)
    (out : Finset Nat) (c : Nat) :
    ∃ next, readCodepoint view entry start delta rangeOffset out c = .ok next ∧
      ∀ b, b ∈ next ↔ b ∈ out ∨
        (b = c ∧ segmentGlyph view entry start delta rangeOffset c ≠ 0) := by
  unfold readCodepoint segmentGlyph
  dsimp only
  by_cases zero : rangeOffset = 0
  · rw [if_pos zero, if_pos zero]
    exact ⟨_, rfl, fun b => mem_add⟩
  · rw [if_neg zero, if_neg zero]
    by_cases behind : entry + rangeOffset + (c - start) * 2 + 2 > view.length
    · rw [getUint16_eq_none behind]
      exact ⟨out, if_pos behind, fun b => by simp⟩
    · obtain ⟨g, -, found⟩ := getUint16_of_le (Nat.le_of_not_gt behind)
      rw [found]
      exact ⟨_, if_neg behind, fun b => mem_add⟩

structure Segment where
  stop : Nat
  start : Nat
  delta : Nat
  rangeOffset : Nat
  /-- Where its `idRangeOffset` stands. -/
  entry : Nat
deriving DecidableEq, Repr

def Segment.glyph (view : List UInt8) (segment : Segment) (c : Nat) : Nat :=
  segmentGlyph view segment.entry segment.start segment.delta segment.rangeOffset c

def getSegment (view : List UInt8) (endBase startBase deltaBase rangeBase s : Nat) : Segment where
  stop := (getUint16 view (endBase + s * 2)).getD 0
  start := (getUint16 view (startBase + s * 2)).getD 0
  delta := (getUint16 view (deltaBase + s * 2)).getD 0
  rangeOffset := (getUint16 view (rangeBase + s * 2)).getD 0
  entry := rangeBase + s * 2

theorem readSegment_ok {view : List UInt8} {endBase startBase deltaBase rangeBase segCount : Nat}
    (inEnd : endBase + segCount * 2 ≤ view.length)
    (inStart : startBase + segCount * 2 ≤ view.length)
    (inDelta : deltaBase + segCount * 2 ≤ view.length)
    (inRange : rangeBase + segCount * 2 ≤ view.length) {s : Nat} (h : s < segCount)
    (out : Finset Nat) :
    ∃ next, readSegment view endBase startBase deltaBase rangeBase out s = .ok next ∧
      ∀ c, c ∈ next ↔ c ∈ out ∨
        (c < 0xffff ∧ (getSegment view endBase startBase deltaBase rangeBase s).start ≤ c ∧
          c ≤ (getSegment view endBase startBase deltaBase rangeBase s).stop ∧
          (getSegment view endBase startBase deltaBase rangeBase s).glyph view c ≠ 0) := by
  obtain ⟨stop, stopLt, stopEq⟩ := getUint16_of_le (show endBase + s * 2 + 2 ≤ view.length by omega)
  obtain ⟨start, -, startEq⟩ := getUint16_of_le (show startBase + s * 2 + 2 ≤ view.length by omega)
  obtain ⟨delta, -, deltaEq⟩ := getUint16_of_le (show deltaBase + s * 2 + 2 ≤ view.length by omega)
  obtain ⟨rangeOffset, -, rangeEq⟩ :=
    getUint16_of_le (show rangeBase + s * 2 + 2 ≤ view.length by omega)
  have same : getSegment view endBase startBase deltaBase rangeBase s =
      ⟨stop, start, delta, rangeOffset, rangeBase + s * 2⟩ := by
    simp [getSegment, stopEq, startEq, deltaEq, rangeEq]
  have body : readSegment view endBase startBase deltaBase rangeBase out s =
      if start > stop then pure out
      else (List.range' start ((if stop = 0xffff then 0xfffe else stop) + 1 - start)).foldlM
        (readCodepoint view (rangeBase + s * 2) start delta rangeOffset) out := by
    rw [readSegment, stopEq, startEq, deltaEq, rangeEq]
    rfl
  rw [body, same]
  by_cases empty : start > stop
  · refine ⟨out, if_pos empty, fun c => ?_⟩
    refine (or_iff_left ?_).symm
    rintro ⟨-, low, high, -⟩
    exact absurd (Nat.le_trans low high) (Nat.not_le_of_gt empty)
  · rw [if_neg empty]
    obtain ⟨all, eq, mem⟩ := foldlM_gathers (List.range' start
      ((if stop = 0xffff then 0xfffe else stop) + 1 - start)) (fun out c _ =>
      readCodepoint_ok view (rangeBase + s * 2) start delta rangeOffset out c) out
    refine ⟨all, eq, fun c => ?_⟩
    rw [mem]
    refine or_congr_right ?_
    simp only [List.mem_range'_1, Segment.glyph]
    constructor
    · rintro ⟨c', range, rfl, mapped⟩
      split at range <;> exact ⟨by omega, by omega, by omega, mapped⟩
    · rintro ⟨real, low, high, mapped⟩
      refine ⟨c, ⟨low, ?_⟩, rfl, mapped⟩
      split <;> omega

def segCountX2 (view : List UInt8) (sub : Nat) : Nat := (getUint16 view (sub + 6)).getD 0

/-- The segments of a table of format 4. -/
def segments (view : List UInt8) (sub : Nat) : List Segment :=
  let x2 := segCountX2 view sub
  (List.range (x2 / 2)).map (getSegment view (sub + 14) (sub + 14 + x2 + 2)
    (sub + 14 + x2 + 2 + x2) (sub + 14 + x2 + 2 + x2 + x2))

/-- Whether the four arrays of a table of format 4 end within the file. -/
def Fits (view : List UInt8) (sub : Nat) : Prop :=
  sub + 14 + 4 * segCountX2 view sub + 2 ≤ view.length

theorem readFormat4_ok (view : List UInt8) (sub : Nat) (out : Finset Nat) :
    ∃ all, readFormat4 view sub out = .ok all ∧
      ∀ c, c ∈ all ↔ c ∈ out ∨ (Fits view sub ∧ c < 0xffff ∧
        ∃ segment ∈ segments view sub, segment.start ≤ c ∧ c ≤ segment.stop ∧
          segment.glyph view c ≠ 0) := by
  by_cases short : sub + 14 > view.length
  · refine ⟨out, if_pos short, fun c => (or_iff_left ?_).symm⟩
    rintro ⟨fits, -⟩
    rw [Fits] at fits
    omega
  obtain ⟨x2, -, read⟩ := getUint16_of_le (show sub + 6 + 2 ≤ view.length by omega)
  have same : segCountX2 view sub = x2 := by rw [segCountX2, read, Option.getD_some]
  have body : readFormat4 view sub out =
      if sub + 14 + x2 + 2 + x2 + x2 + x2 > view.length then pure out
      else (List.range (x2 / 2)).foldlM (readSegment view (sub + 14) (sub + 14 + x2 + 2)
        (sub + 14 + x2 + 2 + x2) (sub + 14 + x2 + 2 + x2 + x2)) out := by
    rw [readFormat4, if_neg short, read]
    rfl
  rw [body, Fits, segments, same]
  by_cases behind : sub + 14 + x2 + 2 + x2 + x2 + x2 > view.length
  · refine ⟨out, if_pos behind, fun c => (or_iff_left ?_).symm⟩
    rintro ⟨fits, -⟩
    omega
  · rw [if_neg behind]
    have round := fun (out : Finset Nat) (s : Nat) (inside : s ∈ List.range (x2 / 2)) =>
      readSegment_ok (show sub + 14 + x2 / 2 * 2 ≤ view.length by omega)
        (show sub + 14 + x2 + 2 + x2 / 2 * 2 ≤ view.length by omega)
        (show sub + 14 + x2 + 2 + x2 + x2 / 2 * 2 ≤ view.length by omega)
        (show sub + 14 + x2 + 2 + x2 + x2 + x2 / 2 * 2 ≤ view.length by omega)
        (List.mem_range.mp inside) out
    obtain ⟨all, eq, mem⟩ := foldlM_gathers (List.range (x2 / 2)) round out
    refine ⟨all, eq, fun c => (mem c).trans (or_congr_right ?_)⟩
    simp only [List.mem_map, exists_exists_and_eq_and]
    constructor
    · rintro ⟨s, inside, real, found⟩
      exact ⟨by omega, real, s, inside, found⟩
    · rintro ⟨-, real, s, inside, found⟩
      exact ⟨s, inside, real, found⟩

theorem readFormat0_ok (view : List UInt8) (sub : Nat) (out : Finset Nat) :
    ∃ all, readFormat0 view sub out = .ok all := by
  unfold readFormat0
  split
  · exact ⟨out, rfl⟩
  · rename_i inside
    refine foldlM_ok (fun out c small => ?_) out
    obtain ⟨glyph, -, found⟩ := getUint8_of_lt (show sub + 6 + c < view.length by
      have := List.mem_range.mp small
      omega)
    exact ⟨add out c glyph, by rw [readByte, found]; rfl⟩

theorem readFormat6_ok (view : List UInt8) (sub : Nat) (out : Finset Nat) :
    ∃ all, readFormat6 view sub out = .ok all := by
  unfold readFormat6
  by_cases short : sub + 10 > view.length
  · exact ⟨out, if_pos short⟩
  rw [if_neg short]
  obtain ⟨first, -, firstEq⟩ := getUint16_of_le (show sub + 6 + 2 ≤ view.length by omega)
  obtain ⟨count, -, countEq⟩ := getUint16_of_le (show sub + 8 + 2 ≤ view.length by omega)
  rw [firstEq, countEq]
  by_cases behind : sub + 10 + count * 2 > view.length
  · exact ⟨out, if_pos behind⟩
  refine (foldlM_ok (fun out i small => ?_) out).imp fun all eq => (if_neg behind).trans eq
  obtain ⟨glyph, -, found⟩ := getUint16_of_le (show sub + 10 + i * 2 + 2 ≤ view.length by
    have := List.mem_range.mp small
    omega)
  exact ⟨add out (first + i) glyph, by rw [readTrimmed, found]; rfl⟩

theorem readFormat12_ok (view : List UInt8) (sub : Nat) (out : Finset Nat) :
    ∃ all, readFormat12 view sub out = .ok all := by
  unfold readFormat12
  by_cases short : sub + 16 > view.length
  · exact ⟨out, if_pos short⟩
  rw [if_neg short]
  obtain ⟨nGroups, count⟩ := getUint32_of_le (show sub + 12 + 4 ≤ view.length by omega)
  rw [count]
  refine foldlM_ok (fun out i small => ?_) out
  have within : sub + 16 + i * 12 + 12 ≤ view.length := by
    have := List.mem_range.mp small
    omega
  obtain ⟨start, startEq⟩ := getUint32_of_le (show sub + 16 + i * 12 + 4 ≤ view.length by omega)
  obtain ⟨stop, stopEq⟩ := getUint32_of_le (show sub + 16 + i * 12 + 4 + 4 ≤ view.length by omega)
  have body : readGroup view sub out i =
      if start > stop ∨ stop - start > 0x10ffff then pure out
      else pure (out ∪ Finset.Icc start stop) := by
    rw [readGroup, startEq, stopEq]
    rfl
  rw [body]
  split <;> exact ⟨_, rfl⟩

theorem readCmapSubtable_ok (view : List UInt8) (sub : Nat) (out : Finset Nat) :
    ∃ all, readCmapSubtable view sub out = .ok all := by
  unfold readCmapSubtable
  by_cases short : sub + 2 > view.length
  · exact ⟨out, if_pos short⟩
  rw [if_neg short]
  obtain ⟨format, -, found⟩ := getUint16_of_le (Nat.le_of_not_gt short)
  rw [found]
  change ∃ all, (if format = 0 then readFormat0 view sub out
    else if format = 4 then readFormat4 view sub out
    else if format = 6 then readFormat6 view sub out
    else if format = 12 then readFormat12 view sub out else pure out) = .ok all
  split
  · exact readFormat0_ok ..
  · split
    · exact (readFormat4_ok view sub out).imp fun _ h => h.1
    · split
      · exact readFormat6_ok ..
      · split
        · exact readFormat12_ok ..
        · exact ⟨out, rfl⟩

theorem findCmap_ok (view : List UInt8) (left i : Nat) :
    ∃ found, findCmap view left i = .ok found := by
  induction left generalizing i with
  | zero => exact ⟨none, rfl⟩
  | succ left ih =>
    rw [findCmap]
    by_cases behind : 12 + i * 16 + 16 > view.length
    · exact ⟨none, if_pos behind⟩
    rw [if_neg behind]
    obtain ⟨tag, tagEq⟩ := getUint32_of_le (show 12 + i * 16 + 4 ≤ view.length by omega)
    obtain ⟨offset, offsetEq⟩ := getUint32_of_le (show 12 + i * 16 + 8 + 4 ≤ view.length by omega)
    rw [tagEq, offsetEq]
    change ∃ found, (if tag = 0x636d6170 then .ok (some offset) else _) = Except.ok found
    split
    · exact ⟨some offset, rfl⟩
    · exact ih (i + 1)

theorem bestSubtable_ok (view : List UInt8) (cmapOffset left i : Nat) (best : Option Nat)
    (bestScore : Int) :
    ∃ found, bestSubtable view cmapOffset left i best bestScore = .ok found := by
  induction left generalizing i best bestScore with
  | zero => exact ⟨best, rfl⟩
  | succ left ih =>
    rw [bestSubtable]
    by_cases behind : cmapOffset + 4 + i * 8 + 8 > view.length
    · exact ⟨best, if_pos behind⟩
    rw [if_neg behind]
    obtain ⟨platform, -, platformEq⟩ :=
      getUint16_of_le (show cmapOffset + 4 + i * 8 + 2 ≤ view.length by omega)
    obtain ⟨encoding, -, encodingEq⟩ :=
      getUint16_of_le (show cmapOffset + 4 + i * 8 + 2 + 2 ≤ view.length by omega)
    obtain ⟨offset, offsetEq⟩ :=
      getUint32_of_le (show cmapOffset + 4 + i * 8 + 4 + 4 ≤ view.length by omega)
    rw [platformEq, encodingEq, offsetEq]
    change ∃ found, (if score platform encoding > bestScore ∧ 0 < cmapOffset + offset ∧
      cmapOffset + offset < view.length then _ else _) = Except.ok found
    split <;> exact ih ..

/-- No read leaves the file, whatever its bytes are: nothing is ever thrown. -/
theorem parse_in_bounds (view : List UInt8) : ∃ out, parse view = .ok out := by
  rw [parse]
  by_cases short : view.length < 12
  · exact ⟨∅, if_pos short⟩
  rw [if_neg short]
  obtain ⟨numTables, -, tables⟩ := getUint16_of_le (show 4 + 2 ≤ view.length by omega)
  obtain ⟨found, cmap⟩ := findCmap_ok view numTables 0
  rw [tables]
  change ∃ out, (findCmap view numTables 0 >>= _) = Except.ok out
  rw [cmap]
  cases found with
  | none => exact ⟨∅, rfl⟩
  | some cmapOffset =>
    change ∃ out, (if cmapOffset + 4 > view.length then pure ∅ else _) = Except.ok out
    split
    · exact ⟨∅, rfl⟩
    · obtain ⟨numSub, -, subtables⟩ :=
        getUint16_of_le (show cmapOffset + 2 + 2 ≤ view.length by omega)
      obtain ⟨best, chosen⟩ := bestSubtable_ok view cmapOffset numSub 0 none (-1)
      rw [subtables]
      change ∃ out, (bestSubtable view cmapOffset numSub 0 none (-1) >>= _) = Except.ok out
      rw [chosen]
      cases best with
      | none => exact ⟨∅, rfl⟩
      | some sub => exact readCmapSubtable_ok view sub ∅

/-- The glyph that the format gives a codepoint: the first segment that ends at it or behind it is
the only one that may hold it. -/
def glyph (view : List UInt8) (sub c : Nat) : Nat :=
  match (segments view sub).find? (c ≤ ·.stop) with
  | some segment => if segment.start ≤ c then segment.glyph view c else 0
  | none => 0

theorem exists_iff_find? {segments : List Segment}
    (ascending : segments.Pairwise fun a b => a.stop < b.start) (glyphOf : Segment → Nat)
    (c : Nat) :
    (∃ segment ∈ segments, segment.start ≤ c ∧ c ≤ segment.stop ∧ glyphOf segment ≠ 0) ↔
      (match segments.find? (c ≤ ·.stop) with
        | some segment => if segment.start ≤ c then glyphOf segment else 0
        | none => 0) ≠ 0 := by
  induction segments with
  | nil => simp
  | cons first segments ih =>
    obtain ⟨before, ascending⟩ := List.pairwise_cons.mp ascending
    by_cases reaches : c ≤ first.stop
    · rw [List.find?_cons_of_pos (by simpa using reaches)]
      constructor
      · rintro ⟨segment, mem, low, high, mapped⟩
        rcases List.mem_cons.mp mem with rfl | later
        · simpa [low] using mapped
        · have := before segment later
          omega
      · intro mapped
        have low : first.start ≤ c := by
          by_contra low
          exact mapped (if_neg low)
        exact ⟨first, List.mem_cons_self, low, reaches, by simpa [low] using mapped⟩
    · rw [List.find?_cons_of_neg (by simpa using reaches), ← ih ascending]
      constructor
      · rintro ⟨segment, mem, low, high, mapped⟩
        rcases List.mem_cons.mp mem with rfl | later
        · exact absurd high reaches
        · exact ⟨segment, later, low, high, mapped⟩
      · rintro ⟨segment, mem, found⟩
        exact ⟨segment, List.mem_cons_of_mem _ mem, found⟩

/-- The codepoints read from a table of format 4 with ascending segments are those that the format
gives a glyph. -/
theorem mem_readCmapSubtable_iff {view : List UInt8} {sub : Nat}
    (format : getUint16 view sub = some 4) (fits : Fits view sub)
    (ascending : (segments view sub).Pairwise fun a b => a.stop < b.start) {c : Nat}
    (real : c < 0xffff) :
    ∃ all, readCmapSubtable view sub ∅ = .ok all ∧ (c ∈ all ↔ glyph view sub c ≠ 0) := by
  obtain ⟨all, eq, mem⟩ := readFormat4_ok view sub ∅
  refine ⟨all, ?_, ?_⟩
  · have inside : ¬sub + 2 > view.length := by
      rw [Fits] at fits
      omega
    rw [readCmapSubtable, if_neg inside, format]
    exact eq
  · rw [mem, glyph, ← exists_iff_find? ascending]
    simp [fits, real]

theorem mem_readCmapSubtable_iff_one :
    ∃ all, readCmapSubtable
        (uint16s [4, 32, 0, 4, 0, 0, 0, 0x44, 0xffff, 0, 0x44, 0xffff, 1, 1, 0, 0]) 0 ∅ = .ok all ∧
      0x44 ∈ all := by
  obtain ⟨all, read, iff⟩ := mem_readCmapSubtable_iff
    (show getUint16 (uint16s [4, 32, 0, 4, 0, 0, 0, 0x44, 0xffff, 0, 0x44, 0xffff, 1, 1, 0, 0]) 0 =
      some 4 by decide) (by unfold Fits; decide) (by decide) (show 0x44 < 0xffff by decide)
  exact ⟨all, read, iff.mpr (by decide)⟩

/-- The two words of a `setUint32`. -/
def words (n : Nat) : List Nat := [n / 65536, n]

/-- What stands before the four arrays. -/
def fontHeader (segCountX2 : Nat) : List Nat :=
  -- the header of the file, and the record of its table
  words 0x00010000 ++ ([1, 0, 0, 0] ++ (words 0x636d6170 ++ (words 0 ++ (words 28 ++
    (words (12 + (16 + segCountX2 * 4)) ++
  -- the header of the table, and the record of its subtable
    ([0, 1, 3, 1] ++ (words 12 ++
      [4, 16 + segCountX2 * 4, 0, segCountX2, 0, 0, 0])))))))

/-- A font with one table, whose one subtable maps each of some codepoints by a segment of its own;
the builder of `__tests__/parse-cmap.test.ts`. -/
def buildFontWithCoverage (codepoints : List Nat) : List UInt8 :=
  let cps := codepoints.dedup.mergeSort (· ≤ ·)
  let ends := cps ++ [0xffff]
  uint16s (fontHeader ((cps.length + 1) * 2) ++
    (ends ++ ([0] ++ (ends ++ ((ends.map fun _ => 1) ++ (ends.map fun _ => 0))))))

/-- The words of a font whose segments end at some codepoints. -/
def fontWords (ends : List Nat) : List Nat :=
  fontHeader (ends.length * 2) ++
    (ends ++ ([0] ++ (ends ++ ((ends.map fun _ => 1) ++ (ends.map fun _ => 0)))))

theorem length_font (ends : List Nat) :
    (uint16s (fontWords ends)).length = 56 + 8 * ends.length := by
  simp only [length_uint16s, fontWords, fontHeader, words, List.length_append, List.length_map,
    List.length_cons, List.length_nil]
  omega

theorem getElem?_skip {α : Type*} (before : List α) {after : List α} {i k : Nat} {a : α}
    (found : after[i]? = some a) (shift : k = before.length + i) :
    (before ++ after)[k]? = some a := by
  rw [shift, List.getElem?_append_right (Nat.le_add_right ..), Nat.add_sub_cancel_left, found]

theorem getElem?_stay {α : Type*} {before : List α} (after : List α) {i : Nat} {a : α}
    (found : before[i]? = some a) : (before ++ after)[i]? = some a := by
  rw [List.getElem?_append_left (List.getElem?_eq_some_iff.mp found).1, found]

/-- The segments of the font that is built. -/
theorem getSegment_font {ends : List Nat} {s stop : Nat} (found : ends[s]? = some stop) :
    getSegment (uint16s (fontWords ends)) 54 (54 + ends.length * 2 + 2)
        (54 + ends.length * 2 + 2 + ends.length * 2)
        (54 + ends.length * 2 + 2 + ends.length * 2 + ends.length * 2) s =
      ⟨stop % 65536, stop % 65536, 1, 0,
        54 + ends.length * 2 + 2 + ends.length * 2 + ends.length * 2 + s * 2⟩ := by
  have ones : (ends.map fun _ => 1)[s]? = some 1 := by rw [List.getElem?_map, found]; rfl
  have zeros : (ends.map fun _ => 0)[s]? = some 0 := by rw [List.getElem?_map, found]; rfl
  have first : (fontWords ends)[27 + s]? = some stop :=
    getElem?_skip _ (getElem?_stay _ found) rfl
  have second : (fontWords ends)[27 + (ends.length + (1 + s))]? = some stop :=
    getElem?_skip _ (getElem?_skip _ (getElem?_skip [0] (getElem?_stay _ found) rfl) rfl) rfl
  have third : (fontWords ends)[27 + (ends.length + (1 + (ends.length + s)))]? = some 1 :=
    getElem?_skip _ (getElem?_skip _ (getElem?_skip [0] (getElem?_skip _
      (getElem?_stay _ ones) rfl) rfl) rfl) rfl
  have fourth : (fontWords ends)[27 + (ends.length + (1 + (ends.length +
      (ends.length + s))))]? = some 0 :=
    getElem?_skip _ (getElem?_skip _ (getElem?_skip [0] (getElem?_skip _
      (getElem?_skip _ zeros (by rw [List.length_map])) rfl) rfl) rfl) rfl
  rw [getSegment]
  rw [show 54 + s * 2 = 2 * (27 + s) by omega, getUint16_uint16s first]
  rw [show 54 + ends.length * 2 + 2 + s * 2 = 2 * (27 + (ends.length + (1 + s))) by omega,
    getUint16_uint16s second]
  rw [show 54 + ends.length * 2 + 2 + ends.length * 2 + s * 2 =
    2 * (27 + (ends.length + (1 + (ends.length + s)))) by omega, getUint16_uint16s third]
  rw [show 54 + ends.length * 2 + 2 + ends.length * 2 + ends.length * 2 + s * 2 =
    2 * (27 + (ends.length + (1 + (ends.length + (ends.length + s))))) by omega,
    getUint16_uint16s fourth]
  rfl

theorem parse_font {ends : List Nat} (small : ends.length * 2 < 65536) :
    parse (uint16s (fontWords ends)) = readFormat4 (uint16s (fontWords ends)) 40 ∅ := by
  have length := length_font ends
  have tables : getUint16 (uint16s (fontWords ends)) 4 = some 1 :=
    getUint16_uint16s (show (fontWords ends)[2]? = some 1 from rfl)
  have tag : getUint32 (uint16s (fontWords ends)) 12 = some 0x636d6170 :=
    getUint32_uint16s (show (fontWords ends)[6]? = some (0x636d6170 / 65536) from rfl)
      (show (fontWords ends)[7]? = some 0x636d6170 from rfl)
  have offset : getUint32 (uint16s (fontWords ends)) 20 = some 28 :=
    getUint32_uint16s (show (fontWords ends)[10]? = some (28 / 65536) from rfl)
      (show (fontWords ends)[11]? = some 28 from rfl)
  have subtables : getUint16 (uint16s (fontWords ends)) 30 = some 1 :=
    getUint16_uint16s (show (fontWords ends)[15]? = some 1 from rfl)
  have platform : getUint16 (uint16s (fontWords ends)) 32 = some 3 :=
    getUint16_uint16s (show (fontWords ends)[16]? = some 3 from rfl)
  have encoding : getUint16 (uint16s (fontWords ends)) 34 = some 1 :=
    getUint16_uint16s (show (fontWords ends)[17]? = some 1 from rfl)
  have start : getUint32 (uint16s (fontWords ends)) 36 = some 12 :=
    getUint32_uint16s (show (fontWords ends)[18]? = some (12 / 65536) from rfl)
      (show (fontWords ends)[19]? = some 12 from rfl)
  have format : getUint16 (uint16s (fontWords ends)) 40 = some 4 :=
    getUint16_uint16s (show (fontWords ends)[20]? = some 4 from rfl)
  generalize uint16s (fontWords ends) = view at *
  have cmap : findCmap view 1 0 = .ok (some 28) := by
    rw [findCmap, if_neg (by omega), tag, offset]
    rfl
  have best : bestSubtable view 28 1 0 none (-1) = .ok (some 40) := by
    rw [bestSubtable, if_neg (by omega), platform, encoding, start]
    have inside : 40 < view.length := by omega
    exact if_pos ⟨by decide, by decide, inside⟩
  rw [parse, if_neg (by omega), tables]
  change (findCmap view 1 0 >>= _) = _
  rw [cmap]
  change (if 28 + 4 > view.length then pure ∅ else _) = _
  rw [if_neg (by omega), subtables]
  change (bestSubtable view 28 1 0 none (-1) >>= _) = _
  rw [best]
  change readCmapSubtable view 40 ∅ = _
  rw [readCmapSubtable, if_neg (by omega), format]
  rfl

theorem segCountX2_font {ends : List Nat} (small : ends.length * 2 < 65536) :
    segCountX2 (uint16s (fontWords ends)) 40 = ends.length * 2 := by
  have read : getUint16 (uint16s (fontWords ends)) 46 = some (ends.length * 2 % 65536) :=
    getUint16_uint16s (show (fontWords ends)[23]? = some (ends.length * 2) from rfl)
  rw [segCountX2, read, Option.getD_some, Nat.mod_eq_of_lt small]

/-- A codepoint is read from the font just when a segment ends at it. -/
theorem mem_font {ends : List Nat} (small : ends.length * 2 < 65536)
    (word : ∀ stop ∈ ends, stop < 65536) (c : Nat) :
    (∃ segment ∈ segments (uint16s (fontWords ends)) 40, segment.start ≤ c ∧ c ≤ segment.stop ∧
      segment.glyph (uint16s (fontWords ends)) c ≠ 0) ↔ c ∈ ends ∧ c ≠ 0xffff := by
  have glyph : ∀ s stop, ends[s]? = some stop →
      getSegment (uint16s (fontWords ends)) 54 (54 + ends.length * 2 + 2)
          (54 + ends.length * 2 + 2 + ends.length * 2)
          (54 + ends.length * 2 + 2 + ends.length * 2 + ends.length * 2) s =
        ⟨stop, stop, 1, 0,
          54 + ends.length * 2 + 2 + ends.length * 2 + ends.length * 2 + s * 2⟩ := by
    intro s stop found
    have fits := word stop (List.mem_of_getElem? found)
    rw [getSegment_font found, Nat.mod_eq_of_lt fits]
  rw [segments, segCountX2_font small]
  simp only [List.mem_map, List.mem_range, exists_exists_and_eq_and]
  constructor
  · rintro ⟨s, inside, low, high, mapped⟩
    have found := List.getElem?_eq_getElem (show s < ends.length by omega)
    rw [glyph s _ found] at low high mapped
    have same : c = ends[s] := Nat.le_antisymm high low
    refine ⟨same ▸ List.getElem_mem _, ?_⟩
    rintro rfl
    exact mapped (show (0xffff + 1) % 65536 = 0 by decide)
  · rintro ⟨mem, real⟩
    obtain ⟨s, inside, same⟩ := List.mem_iff_getElem.mp mem
    have found : ends[s]? = some c := List.getElem?_eq_some_iff.mpr ⟨inside, same⟩
    refine ⟨s, by omega, ?_⟩
    rw [glyph s c found]
    refine ⟨Nat.le_refl _, Nat.le_refl _, ?_⟩
    have := word c mem
    change (c + 1) % 65536 ≠ 0
    omega

/-- A font that is built covers just its codepoints. -/
theorem parse_build {codepoints : List Nat} (real : ∀ c ∈ codepoints, c < 0xffff)
    (few : codepoints.dedup.length < 32767) :
    parseCmapCodepoints (buildFontWithCoverage codepoints) = codepoints.toFinset := by
  have mem_cps : ∀ c, c ∈ codepoints.dedup.mergeSort (· ≤ ·) ↔ c ∈ codepoints := fun c => by
    rw [List.mem_mergeSort, List.mem_dedup]
  have length_cps : (codepoints.dedup.mergeSort (· ≤ ·)).length = codepoints.dedup.length :=
    List.length_mergeSort _
  rw [buildFontWithCoverage]
  generalize codepoints.dedup.mergeSort (· ≤ ·) = cps at *
  have count : (cps ++ [0xffff]).length = cps.length + 1 := by simp
  have small : (cps ++ [0xffff]).length * 2 < 65536 := by omega
  have built : uint16s (fontHeader ((cps.length + 1) * 2) ++ ((cps ++ [0xffff]) ++ ([0] ++
      ((cps ++ [0xffff]) ++ (((cps ++ [0xffff]).map fun _ => 1) ++
        ((cps ++ [0xffff]).map fun _ => 0)))))) = uint16s (fontWords (cps ++ [0xffff])) := by
    rw [fontWords, count]
  have word : ∀ stop ∈ cps ++ [0xffff], stop < 65536 := by
    intro stop mem
    rcases List.mem_append.mp mem with mem | mem
    · have := real stop ((mem_cps stop).mp mem)
      omega
    · rw [List.mem_singleton.mp mem]
      decide
  have fits : Fits (uint16s (fontWords (cps ++ [0xffff]))) 40 := by
    rw [Fits, segCountX2_font small, length_font]
    omega
  obtain ⟨all, eq, mem⟩ := readFormat4_ok (uint16s (fontWords (cps ++ [0xffff]))) 40 ∅
  rw [built, parseCmapCodepoints, parse_font small, eq]
  ext c
  rw [mem c, mem_font small word, List.mem_toFinset, ← mem_cps]
  simp only [Finset.notMem_empty, false_or, List.mem_append, List.mem_singleton]
  constructor
  · rintro ⟨-, -, mem | mem, other⟩
    · exact mem
    · exact absurd mem other
  · intro mem
    have := real c ((mem_cps c).mp mem)
    exact ⟨fits, this, .inl mem, Nat.ne_of_lt this⟩

theorem parse_build_two :
    parseCmapCodepoints (buildFontWithCoverage [0x44, 0x4f]) = [0x44, 0x4f].toFinset :=
  parse_build (by decide) (by decide)

end GigaPdf.GlyphCoverage
