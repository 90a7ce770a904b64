import GigaPdf.Engine.Outline
import GigaPdf.Engine.PageRanges
import GigaPdf.Lib.FirstWriter
import Mathlib.Data.List.Sort

/-!
# Splitting and merging documents

`split.ts` cuts a document at split points, and `merge.ts` joins documents, or ranges of their
pages, and carries the outlines over. The engine opens a file and copies pages; what its operations
do to the pages of a document are named assumptions.
-/

namespace GigaPdf

open FirstWriter

/-- The calls of the engine, and the pages that a document has. -/
structure DocEngine (Bytes Doc Page : Type) where
  openDoc : Bytes → Except String Doc
  pages : Doc → List Page
  outline : Doc → List OutlineEntry
  extractPages : Doc → List Int → Bytes
  appendPages : Doc → Bytes → Doc
  setOutline : Doc → List OutlineEntry → Doc
  saveCompressed : Doc → Bytes

inductive MergeSplitError
  | parse (message : String)
  | pageOutOfRange (page : Int) (pageCount : Nat)
  | engine (message : String)
deriving DecidableEq

/-- The loop from `start` to `stop`. -/
def PageRange.pages (range : PageRange) : List Int :=
  (List.range (range.stop + 1 - range.start).toNat).map fun k : Nat => range.start + (k : Int)

section
variable {Bytes Doc Page : Type} (engine : DocEngine Bytes Doc Page)

def DocEngine.pageCount (doc : Doc) : Nat := (engine.pages doc).length

/-! ## Splitting -/

def validateRange (pageCount : Nat) (range : PageRange) : Except MergeSplitError Unit :=
  if range.start < 1 then .error (.pageOutOfRange range.start pageCount)
  else if pageCount < range.stop then .error (.pageOutOfRange range.stop pageCount)
  else if range.stop < range.start then
    .error (.parse ("Invalid range: start (" ++ toString range.start ++
      ") must be less than or equal to end (" ++ toString range.stop ++ ")"))
  else .ok ()

def splitPDF (buffer : Bytes) (ranges : List PageRange) : Except MergeSplitError (List Bytes) :=
  match engine.openDoc buffer with
  | .error e => .error (.parse ("Failed to parse PDF: " ++ e))
  | .ok doc => do
    ranges.forM (validateRange (engine.pageCount doc))
    return ranges.map fun range => engine.extractPages doc range.pages

/-- The ranges between sorted split points. -/
def splitRanges (pageCount : Nat) : List Int → List PageRange
  | [] => [⟨1, pageCount⟩]
  | first :: rest =>
    ⟨1, first⟩ :: List.zipWith (fun before point => ⟨before + 1, point⟩) (first :: rest) rest ++
      [⟨(first :: rest).getLast (List.cons_ne_nil _ _) + 1, pageCount⟩]

def splitAt (buffer : Bytes) (splitPoints : List Int) : Except MergeSplitError (List Bytes) :=
  match engine.openDoc buffer with
  | .error e => .error (.parse ("Failed to parse PDF: " ++ e))
  | .ok doc =>
    let sorted := splitPoints.eraseDups.insertionSort (· ≤ ·)
    splitPDF engine buffer (splitRanges (engine.pageCount doc) sorted)

/-! ## Merging -/

/-- Where each page number comes first, counted from 1. -/
def firstPositions (pageNumbers : List Int) : List (Int × Int) :=
  pageNumbers.zipIdx.foldl (fun map e => record [e.1] ((e.2 : Int) + 1) map) []

/-- What is merged of a source: its bytes, its number of pages, and the position of a page of the
source in it. -/
structure MergePart (Bytes : Type) where
  bytes : Bytes
  partPageCount : Nat
  positionOf : Int → Option Int

def mergePart (raw : Bytes) (srcDoc : Doc) : Option (List PageRange) → MergePart Bytes
  | some ranges =>
    let pageNumbers := ranges.flatMap PageRange.pages
    { bytes := engine.extractPages srcDoc pageNumbers
      partPageCount := pageNumbers.length
      positionOf := fun srcPage => lookup srcPage (firstPositions pageNumbers) }
  | none =>
    { bytes := raw
      partPageCount := engine.pageCount srcDoc
      positionOf := some }

/-- An entry of the merged outline has level, title and page. -/
def carriedEntry (positionOf : Int → Option Int) (pageOffset : Nat) (item : OutlineEntry) :
    OutlineEntry where
  level := item.level
  title := item.title
  page := (item.page.filter fun page => 0 < page).bind fun page =>
    (positionOf page).map fun pos => pos + (pageOffset : Int)
  destKind := none
  x := none
  y := none
  zoom := none
  bold := none
  italic := none
  color := none

structure MergePass (Bytes : Type) where
  partBytes : List Bytes
  mergedOutline : List OutlineEntry
  pageOffset : Nat

/-- `pageRanges?.[i] ?? null` -/
def rangesAt (pageRanges : Option (List (Option (List PageRange)))) (i : Nat) :
    Option (List PageRange) :=
  (pageRanges.bind fun ranges => ranges[i]?).join

/-- The outline of a source is carried forward behind those before, and the part is kept. -/
def MergePass.add (pass : MergePass Bytes) (part : MergePart Bytes) (outline : List OutlineEntry) :
    MergePass Bytes where
  partBytes := pass.partBytes ++ [part.bytes]
  mergedOutline := pass.mergedOutline ++ outline.map (carriedEntry part.positionOf pass.pageOffset)
  pageOffset := pass.pageOffset + part.partPageCount

def mergeSource (pageRanges : Option (List (Option (List PageRange)))) (pass : MergePass Bytes)
    (source : Bytes × Nat) : Except MergeSplitError (MergePass Bytes) :=
  match engine.openDoc source.1 with
  | .error e =>
    .error (.parse ("Failed to parse PDF at index " ++ toString source.2 ++ ": " ++ e))
  | .ok srcDoc =>
    .ok (pass.add (mergePart engine source.1 srcDoc (rangesAt pageRanges source.2))
      (engine.outline srcDoc))

/-- The second pass: the first part, the others behind it, and the outline. -/
def mergeParts (pass : MergePass Bytes) : Except MergeSplitError Bytes :=
  match pass.partBytes with
  | [] => .error (.engine "")
  | first :: rest =>
    match engine.openDoc first with
    | .error e => .error (.engine e)
    | .ok base =>
      let merged := rest.foldl engine.appendPages base
      let outlined :=
        if pass.mergedOutline.length > 0 then engine.setOutline merged pass.mergedOutline
        else merged
      .ok (engine.saveCompressed outlined)

def mergePDFs (buffers : List Bytes) (pageRanges : Option (List (Option (List PageRange)))) :
    Except MergeSplitError Bytes :=
  if buffers.length < 2 then .error (.parse "At least 2 PDF buffers are required to merge")
  else do
    let pass ← buffers.zipIdx.foldlM (mergeSource engine pageRanges) ⟨[], [], 0⟩
    mergeParts engine pass

/-! ## What the engine does to pages -/

/-- `pages` of an opened file. -/
def DocEngine.Holds (bytes : Bytes) (pages : List Page) : Prop :=
  ∃ doc, engine.openDoc bytes = .ok doc ∧ engine.pages doc = pages

/-- The pages with these numbers, from 1. -/
def DocEngine.numbered (doc : Doc) (numbers : List Int) : List Page :=
  numbers.filterMap fun p => (engine.pages doc)[(p - 1).toNat]?

/-- The numbers are those of pages of the document. -/
def DocEngine.Within (doc : Doc) (numbers : List Int) : Prop :=
  ∀ p ∈ numbers, 1 ≤ p ∧ p ≤ engine.pageCount doc

/-- `extractPages` keeps the listed pages in their order. -/
def DocEngine.Extracts : Prop :=
  ∀ (doc : Doc) (numbers : List Int), engine.Within doc numbers →
    engine.Holds (engine.extractPages doc numbers) (engine.numbered doc numbers)

/-- `appendPages` appends all pages. -/
def DocEngine.Appends : Prop :=
  ∀ (doc : Doc) (bytes : Bytes) (pages : List Page), engine.Holds bytes pages →
    engine.pages (engine.appendPages doc bytes) = engine.pages doc ++ pages

/-- An outline and a save leave the pages as they are. -/
def DocEngine.Saves : Prop :=
  ∀ (doc : Doc) (outline : List OutlineEntry),
    engine.Holds (engine.saveCompressed doc) (engine.pages doc) ∧
      engine.pages (engine.setOutline doc outline) = engine.pages doc

/-- A resolved destination is a page of the document. -/
def DocEngine.Resolves : Prop :=
  ∀ (doc : Doc), ∀ item ∈ engine.outline doc, ∀ p ∈ item.page, p ≤ engine.pageCount doc

/-- Files are lists of page names with an outline, which is read with its resolved pages. -/
def listEngine : DocEngine (List Nat × List OutlineEntry) (List Nat × List OutlineEntry) Nat where
  openDoc := .ok
  pages := Prod.fst
  outline := fun doc => doc.2.map fun item =>
    { item with page := item.page.filter fun p => p ≤ doc.1.length }
  extractPages := fun doc numbers => (numbers.filterMap fun p => doc.1[(p - 1).toNat]?, [])
  appendPages := fun doc bytes => (doc.1 ++ bytes.1, doc.2)
  setOutline := fun doc outline => (doc.1, outline)
  saveCompressed := id

theorem listEngine_extracts : listEngine.Extracts := fun _ _ _ => ⟨_, rfl, rfl⟩

theorem listEngine_appends : listEngine.Appends := by
  rintro doc bytes pages ⟨_, opened, rfl⟩
  cases opened
  rfl

theorem listEngine_saves : listEngine.Saves := fun _ _ => ⟨⟨_, rfl, rfl⟩, rfl⟩

theorem listEngine_resolves : listEngine.Resolves := by
  intro doc item mem p page
  obtain ⟨stored, -, rfl⟩ := List.mem_map.mp mem
  exact of_decide_eq_true (Option.filter_eq_some_iff.mp page).2

/-! ## Ranges of pages -/

theorem PageRange.mem_pages {range : PageRange} {p : Int} :
    p ∈ range.pages ↔ range.start ≤ p ∧ p ≤ range.stop := by
  simp only [PageRange.pages, List.mem_map, List.mem_range]
  constructor
  · rintro ⟨k, inside, rfl⟩
    omega
  · rintro ⟨low, high⟩
    exact ⟨(p - range.start).toNat, by omega, by omega⟩

/-- A range is cut in two. -/
theorem pages_append {a b c : Int} (left : a ≤ b + 1) (right : b ≤ c) :
    (PageRange.mk a b).pages ++ (PageRange.mk (b + 1) c).pages = (PageRange.mk a c).pages := by
  have length : (c + 1 - a).toNat = (b + 1 - a).toNat + (c + 1 - (b + 1)).toNat := by omega
  have shift : ∀ k : Nat, a + (((b + 1 - a).toNat + k : Nat) : Int) = b + 1 + k := by omega
  simp only [PageRange.pages, length, List.range_add, List.map_append, List.map_map]
  congr 1
  apply List.map_congr_left
  intro k _
  exact (shift k).symm

/-- All pages, in their order. -/
theorem numbered_all (doc : Doc) :
    engine.numbered doc (PageRange.mk 1 (engine.pageCount doc)).pages = engine.pages doc := by
  have count : ((engine.pageCount doc : Int) + 1 - 1).toNat = (engine.pages doc).length := by
    rw [DocEngine.pageCount]
    omega
  have each : ∀ k : Nat, (engine.pages doc)[(1 + (k : Int) - 1).toNat]? = (engine.pages doc)[k]? := by
    intro k
    rw [show (1 + (k : Int) - 1).toNat = k by omega]
  simp only [DocEngine.numbered, PageRange.pages, count, List.filterMap_map, Function.comp_def, each]
  induction engine.pages doc with
  | nil => rfl
  | cons page pages ih => simp [List.range_succ_eq_map, List.filterMap_map, ih]

theorem numbered_flatMap (doc : Doc) (ranges : List PageRange) :
    engine.numbered doc (ranges.flatMap PageRange.pages) =
      (ranges.map fun range => engine.numbered doc range.pages).flatten := by
  induction ranges with
  | nil => rfl
  | cons range ranges ih =>
    rw [List.flatMap_cons, List.map_cons, List.flatten_cons, ← ih]
    exact List.filterMap_append

/-! ## The ranges between split points -/

/-- The ranges from `start` on. -/
def segments (last : Int) : Int → List Int → List PageRange
  | start, [] => [⟨start, last⟩]
  | start, point :: points => ⟨start, point⟩ :: segments last (point + 1) points

theorem splitRanges_eq (pageCount : Nat) (points : List Int) :
    splitRanges pageCount points = segments pageCount 1 points := by
  have rest : ∀ (first : Int) (points : List Int),
      List.zipWith (fun before point => PageRange.mk (before + 1) point) (first :: points) points ++
        [⟨(first :: points).getLast (List.cons_ne_nil _ _) + 1, pageCount⟩] =
        segments pageCount (first + 1) points := by
    intro first points
    induction points generalizing first with
    | nil => rfl
    | cons point points ih =>
      rw [List.zipWith_cons_cons, List.cons_append, List.getLast_cons_cons, ih point]
      rfl
  cases points with
  | nil => rfl
  | cons first points =>
    rw [splitRanges, List.cons_append, rest]
    rfl

theorem validateRange_eq_ok_iff {pageCount : Nat} {range : PageRange} :
    validateRange pageCount range = .ok () ↔
      1 ≤ range.start ∧ range.start ≤ range.stop ∧ range.stop ≤ pageCount := by
  rw [validateRange]
  split_ifs
  · simp; omega
  · simp; omega
  · simp; omega
  · simp; omega

theorem forM_validateRange {pageCount : Nat} {ranges : List PageRange} :
    ranges.forM (validateRange pageCount) = .ok () ↔
      ∀ range ∈ ranges, 1 ≤ range.start ∧ range.start ≤ range.stop ∧ range.stop ≤ pageCount := by
  induction ranges with
  | nil => simp [pure, Except.pure]
  | cons range ranges ih =>
    change (validateRange pageCount range >>= fun _ => ranges.forM (validateRange pageCount)) =
      .ok () ↔ _
    rw [List.forall_mem_cons, ← ih, ← validateRange_eq_ok_iff]
    cases validateRange pageCount range with
    | error e => simp [bind, Except.bind]
    | ok _ => simp [bind, Except.bind]

/-- The pieces between increasing points are ranges of pages exactly when the points lie before the
last page. -/
theorem segments_valid_iff {pageCount : Nat} {points : List Int} {start : Int}
    (increasing : points.Pairwise (· < ·)) :
    (∀ range ∈ segments pageCount start points,
        1 ≤ range.start ∧ range.start ≤ range.stop ∧ range.stop ≤ pageCount) ↔
      1 ≤ start ∧ start ≤ pageCount ∧ ∀ p ∈ points, start ≤ p ∧ p < pageCount := by
  induction points generalizing start with
  | nil => simp [segments]
  | cons point points ih =>
    rw [List.pairwise_cons] at increasing
    simp only [segments, List.forall_mem_cons, ih increasing.2]
    constructor
    · rintro ⟨⟨low, ordered, -⟩, -, room, rest⟩
      refine ⟨low, by omega, ⟨ordered, by omega⟩, ?_⟩
      intro p mem
      have := rest p mem
      omega
    · rintro ⟨low, -, ⟨ordered, before⟩, rest⟩
      refine ⟨⟨low, ordered, by omega⟩, by omega, by omega, ?_⟩
      intro p mem
      have := increasing.1 p mem
      have := rest p mem
      omega

theorem start_le_of_segments {last : Int} {points : List Int} {start : Int}
    (valid : ∀ range ∈ segments last start points, range.start ≤ range.stop) : start ≤ last := by
  induction points generalizing start with
  | nil => exact valid _ List.mem_cons_self
  | cons point points ih =>
    rw [segments, List.forall_mem_cons] at valid
    have := ih valid.2
    have := valid.1
    simp only at this
    omega

/-- Valid pieces lie end to end. -/
theorem segments_pages {last : Int} {points : List Int} {start : Int}
    (valid : ∀ range ∈ segments last start points, range.start ≤ range.stop) :
    (segments last start points).flatMap PageRange.pages = (PageRange.mk start last).pages := by
  induction points generalizing start with
  | nil => rw [segments, List.flatMap_singleton]
  | cons point points ih =>
    rw [segments, List.forall_mem_cons] at valid
    have ordered : start ≤ point := valid.1
    have room := start_le_of_segments valid.2
    rw [segments, List.flatMap_cons, ih valid.2, pages_append (by omega) (by omega)]

/-! ## Split documents -/

theorem nodup_eraseDups (points : List Int) : points.eraseDups.Nodup := by
  have bounded : ∀ (n : Nat) (points : List Int), points.length ≤ n → points.eraseDups.Nodup := by
    intro n
    induction n with
    | zero =>
      intro points short
      rw [List.eq_nil_of_length_eq_zero (Nat.le_zero.mp short)]
      exact .nil
    | succ n ih =>
      intro points short
      cases points with
      | nil => exact .nil
      | cons point points =>
        have shorter := points.length_filter_le fun p => !p == point
        rw [List.length_cons] at short
        rw [List.eraseDups_cons, List.nodup_cons, List.mem_eraseDups]
        exact ⟨by simp, ih _ (by omega)⟩
  exact bounded points.length points (Nat.le_refl _)

theorem pairwise_sorted (points : List Int) :
    (points.eraseDups.insertionSort (· ≤ ·)).Pairwise (· < ·) := by
  have sorted := List.pairwise_insertionSort (· ≤ ·) points.eraseDups
  have apart := (List.perm_insertionSort (· ≤ ·) points.eraseDups).nodup_iff.mpr
    (nodup_eraseDups points)
  exact (sorted.and apart).imp fun ⟨le, ne⟩ => lt_of_le_of_ne le ne

theorem mem_sorted {points : List Int} {p : Int} :
    p ∈ points.eraseDups.insertionSort (· ≤ ·) ↔ p ∈ points := by
  rw [List.mem_insertionSort, List.mem_eraseDups]

variable {engine} in
theorem forall₂_holds (extracts : engine.Extracts) {doc : Doc} {ranges : List PageRange}
    (valid : ∀ range ∈ ranges, 1 ≤ range.start ∧ range.start ≤ range.stop ∧
      range.stop ≤ engine.pageCount doc) :
    List.Forall₂ engine.Holds (ranges.map fun range => engine.extractPages doc range.pages)
      (ranges.map fun range => engine.numbered doc range.pages) := by
  rw [List.forall₂_map_left_iff, List.forall₂_map_right_iff, List.forall₂_same]
  intro range mem
  apply extracts
  intro p inside
  rw [PageRange.mem_pages] at inside
  have := valid range mem
  omega

/-- The pages of a range that has some. -/
theorem numbered_ne_nil {doc : Doc} {range : PageRange} (low : 1 ≤ range.start)
    (ordered : range.start ≤ range.stop) (high : range.stop ≤ engine.pageCount doc) :
    engine.numbered doc range.pages ≠ [] := by
  have inside : (range.start - 1).toNat < (engine.pages doc).length := by
    rw [DocEngine.pageCount] at high
    omega
  have first : (engine.pages doc)[(range.start - 1).toNat] ∈ engine.numbered doc range.pages :=
    List.mem_filterMap.mpr ⟨range.start, PageRange.mem_pages.mpr ⟨le_refl _, ordered⟩,
      List.getElem?_eq_getElem inside⟩
  exact List.ne_nil_of_mem first

/-- Split points before the last page cut the document into its pages in their order, and with
another point there is no result. -/
theorem splitAt_tiles (extracts : engine.Extracts) {buffer : Bytes} {doc : Doc}
    (opens : engine.openDoc buffer = .ok doc) (nonempty : 1 ≤ engine.pageCount doc)
    (points : List Int) :
    ((∀ p ∈ points, 1 ≤ p ∧ p < engine.pageCount doc) →
      ∃ parts contents, splitAt engine buffer points = .ok parts ∧
        List.Forall₂ engine.Holds parts contents ∧ (∀ pages ∈ contents, pages ≠ []) ∧
        contents.flatten = engine.pages doc) ∧
    ((∃ p ∈ points, p < 1 ∨ engine.pageCount doc ≤ p) →
      ∃ e, splitAt engine buffer points = .error e) := by
  have valid_iff := @segments_valid_iff (engine.pageCount doc) _ 1 (pairwise_sorted points)
  simp only [mem_sorted] at valid_iff
  generalize sorted : points.eraseDups.insertionSort (· ≤ ·) = cuts at valid_iff
  have unfolded : splitAt engine buffer points = (do
      (segments (engine.pageCount doc) 1 cuts).forM (validateRange (engine.pageCount doc))
      return (segments (engine.pageCount doc) 1 cuts).map
        fun range => engine.extractPages doc range.pages) := by
    simp only [splitAt, splitPDF, opens, splitRanges_eq, sorted]
  constructor
  · intro inside
    have valid := valid_iff.mpr ⟨le_refl _, by omega, inside⟩
    refine ⟨_, _, ?_, forall₂_holds extracts valid, ?_, ?_⟩
    · rw [unfolded, forM_validateRange.mpr valid]
      rfl
    · rw [List.forall_mem_map]
      intro range mem
      obtain ⟨low, ordered, high⟩ := valid range mem
      exact numbered_ne_nil engine low ordered high
    · rw [← numbered_all engine doc, ← segments_pages fun range mem => (valid range mem).2.1,
        numbered_flatMap]
  · rintro ⟨p, mem, outside⟩
    cases checked : (segments (engine.pageCount doc) 1 cuts).forM
      (validateRange (engine.pageCount doc)) with
    | error e => exact ⟨e, by rw [unfolded, checked]; rfl⟩
    | ok _ =>
      have inside := (valid_iff.mp (forM_validateRange.mp checked)).2.2 p mem
      omega

theorem splitAt_tiles_five_pages :
    ∃ parts contents, splitAt listEngine ([1, 2, 3, 4, 5], []) [3, 1, 3] = .ok parts ∧
      List.Forall₂ listEngine.Holds parts contents ∧ (∀ pages ∈ contents, pages ≠ []) ∧
      contents.flatten = [1, 2, 3, 4, 5] :=
  (splitAt_tiles listEngine listEngine_extracts rfl (by decide) [3, 1, 3]).1 (by decide)

/-- A point at the last page asks for a range behind it. -/
theorem splitAt_last_page :
    ¬∀ (buffer : List Nat × List OutlineEntry) (points : List Int),
      1 ≤ listEngine.pageCount buffer →
      (∀ p ∈ points, 1 ≤ p ∧ p ≤ listEngine.pageCount buffer) →
      ∃ parts, splitAt listEngine buffer points = .ok parts := by
  intro all
  obtain ⟨parts, cut⟩ := all ([1, 2, 3, 4, 5], []) [5] (by decide) (by decide)
  have refused : splitAt listEngine ([1, 2, 3, 4, 5], []) [5] =
      .error (.parse "Invalid range: start (6) must be less than or equal to end (5)") := by
    decide
  rw [refused] at cut
  cases cut

/-! ## Where pages come from -/

/-- The pages of a source that are merged, in their order. -/
def selection (pageRanges : Option (List (Option (List PageRange)))) (i : Nat) (doc : Doc) :
    List Int :=
  match rangesAt pageRanges i with
  | some ranges => ranges.flatMap PageRange.pages
  | none => (PageRange.mk 1 (engine.pageCount doc)).pages

/-- The source and the page number there of each page of the merged document. -/
def origins (pageRanges : Option (List (Option (List PageRange)))) (docs : List Doc) :
    List (Nat × Int) :=
  docs.zipIdx.flatMap fun e => (selection engine pageRanges e.2 e.1).map fun p => (e.2, p)

/-- The entries of all sources. -/
def sourceEntries (docs : List Doc) : List (Nat × OutlineEntry) :=
  docs.zipIdx.flatMap fun e => (engine.outline e.1).map fun item => (e.2, item)

/-- Level and title are kept; a page is that of a copy of the target, if there is one. -/
def Carried (origins : List (Nat × Int)) (entry : Nat × OutlineEntry) (merged : OutlineEntry) :
    Prop :=
  merged.level = entry.2.level ∧ merged.title = entry.2.title ∧
    match entry.2.page.filter fun page => 0 < page with
    | none => merged.page = none
    | some p =>
      if (entry.1, p) ∈ origins then
        ∃ k : Nat, merged.page = some ((k : Int) + 1) ∧ origins[k]? = some (entry.1, p)
      else merged.page = none

theorem origins_append (pageRanges : Option (List (Option (List PageRange)))) (docs : List Doc)
    (doc : Doc) :
    origins engine pageRanges (docs ++ [doc]) = origins engine pageRanges docs ++
      (selection engine pageRanges docs.length doc).map fun p => (docs.length, p) := by
  rw [origins, List.zipIdx_append, List.flatMap_append]
  simp [origins]

theorem sourceEntries_append (docs : List Doc) (doc : Doc) :
    sourceEntries engine (docs ++ [doc]) = sourceEntries engine docs ++
      (engine.outline doc).map fun item => (docs.length, item) := by
  rw [sourceEntries, List.zipIdx_append, List.flatMap_append]
  simp [sourceEntries]

theorem lt_of_mem_origins {pageRanges : Option (List (Option (List PageRange)))}
    {docs : List Doc} {e : Nat × Int} (mem : e ∈ origins engine pageRanges docs) :
    e.1 < docs.length := by
  simp only [origins, List.mem_flatMap, List.mem_map] at mem
  obtain ⟨⟨doc, i⟩, here, p, -, rfl⟩ := mem
  exact (List.mem_zipIdx' here).1

theorem mem_origins_append {pageRanges : Option (List (Option (List PageRange)))}
    {docs : List Doc} {doc : Doc} {p : Int} :
    (docs.length, p) ∈ origins engine pageRanges (docs ++ [doc]) ↔
      p ∈ selection engine pageRanges docs.length doc := by
  rw [origins_append, List.mem_append]
  constructor
  · rintro (mem | mem)
    · exact absurd (lt_of_mem_origins engine mem) (Nat.lt_irrefl _)
    · simpa using mem
  · intro mem
    exact .inr (List.mem_map_of_mem mem)

/-! ## Positions in a part -/

theorem find?_zipIdx {pageNumbers : List Int} {p : Int} {e : Int × Nat}
    (found : pageNumbers.zipIdx.find? (fun e => decide (p ∈ [e.1])) = some e) :
    pageNumbers[e.2]? = some p := by
  have here := List.mem_zipIdx_iff_getElem?.mp (List.mem_of_find?_eq_some found)
  have key : p = e.1 := by simpa using List.find?_some found
  rw [here, key]

theorem lookup_firstPositions (pageNumbers : List Int) (p : Int) :
    lookup p (firstPositions pageNumbers) =
      (pageNumbers.zipIdx.find? fun e => decide (p ∈ [e.1])).map fun e => (e.2 : Int) + 1 :=
  lookup_foldl_record (fun e : Int × Nat => [e.1]) (fun e => (e.2 : Int) + 1) p pageNumbers.zipIdx

/-- A selected page stands in the part at its position. -/
theorem positionOf_selected {pageRanges : Option (List (Option (List PageRange)))} {i : Nat}
    {doc : Doc} (raw : Bytes) {p : Int} (mem : p ∈ selection engine pageRanges i doc) :
    ∃ k : Nat, (mergePart engine raw doc (rangesAt pageRanges i)).positionOf p =
        some ((k : Int) + 1) ∧ (selection engine pageRanges i doc)[k]? = some p := by
  rw [selection] at mem ⊢
  cases ranged : rangesAt pageRanges i with
  | none =>
    rw [ranged] at mem
    have bounds := PageRange.mem_pages.mp mem
    simp only at bounds
    refine ⟨(p - 1).toNat, ?_, ?_⟩
    · simp only [mergePart, Option.some.injEq]
      omega
    · have inside : (p - 1).toNat < ((engine.pageCount doc : Int) + 1 - 1).toNat := by omega
      rw [PageRange.pages, List.getElem?_map, List.getElem?_range inside]
      simp only [Option.map_some, Option.some.injEq]
      omega
  | some ranges =>
    rw [ranged] at mem
    simp only [mergePart, lookup_firstPositions]
    cases found : (ranges.flatMap PageRange.pages).zipIdx.find? fun e => decide (p ∈ [e.1]) with
    | none =>
      obtain ⟨k, inside, here⟩ := List.getElem_of_mem mem
      have absent := List.find?_eq_none.mp found (p, k)
        (List.mem_zipIdx_iff_getElem?.mpr (by rw [List.getElem?_eq_getElem inside, here]))
      simp at absent
    | some e => exact ⟨e.2, rfl, find?_zipIdx found⟩

theorem positionOf_other {pageRanges : Option (List (Option (List PageRange)))} {i : Nat}
    {doc : Doc} (raw : Bytes) {p : Int} (low : 0 < p) (high : p ≤ engine.pageCount doc)
    (other : p ∉ selection engine pageRanges i doc) :
    (mergePart engine raw doc (rangesAt pageRanges i)).positionOf p = none := by
  rw [selection] at other
  cases ranged : rangesAt pageRanges i with
  | none =>
    rw [ranged] at other
    exact absurd (PageRange.mem_pages.mpr ⟨Int.add_one_le_of_lt low, high⟩) other
  | some ranges =>
    rw [ranged] at other
    simp only [mergePart, lookup_firstPositions, Option.map_eq_none_iff, List.find?_eq_none]
    rintro ⟨q, k⟩ mem same
    have here := List.mem_zipIdx_iff_getElem?.mp mem
    simp only [List.mem_singleton, decide_eq_true_eq] at same
    subst same
    exact other (List.mem_of_getElem? here)

theorem partPageCount_eq {pageRanges : Option (List (Option (List PageRange)))} {i : Nat}
    {doc : Doc} (raw : Bytes) :
    (mergePart engine raw doc (rangesAt pageRanges i)).partPageCount =
      (selection engine pageRanges i doc).length := by
  rw [selection]
  cases rangesAt pageRanges i with
  | none => simp [mergePart, PageRange.pages]
  | some ranges => rfl

/-! ## The merged outline -/

/-- An entry of the source that is merged next. -/
theorem carried_next {pageRanges : Option (List (Option (List PageRange)))} {docs : List Doc}
    {doc : Doc} (resolves : engine.Resolves) (raw : Bytes) {item : OutlineEntry}
    (mem : item ∈ engine.outline doc) :
    Carried (origins engine pageRanges (docs ++ [doc])) (docs.length, item)
      (carriedEntry
        (mergePart engine raw doc (rangesAt pageRanges docs.length)).positionOf
        (origins engine pageRanges docs).length item) := by
  refine ⟨rfl, rfl, ?_⟩
  simp only [carriedEntry]
  cases target : item.page.filter fun page => 0 < page with
  | none => rfl
  | some p =>
    obtain ⟨page, low⟩ := Option.filter_eq_some_iff.mp target
    have positive : 0 < p := of_decide_eq_true low
    simp only [Option.bind_some, mem_origins_append]
    split
    · rename_i selected
      obtain ⟨k, position, here⟩ := positionOf_selected engine raw selected
      refine ⟨(origins engine pageRanges docs).length + k, ?_, ?_⟩
      · rw [position, Option.map_some, Option.some.injEq]
        omega
      · rw [origins_append, List.getElem?_append_right (by omega), Nat.add_sub_cancel_left,
          List.getElem?_map, here]
        rfl
    · rename_i other
      rw [positionOf_other engine raw positive (resolves doc item mem p page) other]
      rfl

/-- Later sources do not change an entry. -/
theorem Carried.append {pageRanges : Option (List (Option (List PageRange)))} {docs : List Doc}
    {doc : Doc} {entry : Nat × OutlineEntry} {merged : OutlineEntry} (early : entry.1 < docs.length)
    (carried : Carried (origins engine pageRanges docs) entry merged) :
    Carried (origins engine pageRanges (docs ++ [doc])) entry merged := by
  obtain ⟨level, title, page⟩ := carried
  refine ⟨level, title, ?_⟩
  cases target : entry.2.page.filter fun page => 0 < page with
  | none => rwa [target] at page
  | some p =>
    rw [target] at page
    have same : (entry.1, p) ∈ origins engine pageRanges (docs ++ [doc]) ↔
        (entry.1, p) ∈ origins engine pageRanges docs := by
      rw [origins_append, List.mem_append, or_iff_left]
      intro mem
      simp only [List.mem_map, Prod.mk.injEq] at mem
      obtain ⟨_, _, here, _⟩ := mem
      omega
    simp only [same] at page ⊢
    split at page
    · rename_i selected
      obtain ⟨k, position, here⟩ := page
      rw [if_pos selected]
      refine ⟨k, position, ?_⟩
      rw [origins_append, List.getElem?_append_left (List.getElem?_eq_some_iff.mp here).1, here]
    · rename_i other
      rw [if_neg other]
      exact page

/-! ## Merged documents -/

/-- The page is that of its origin. -/
def Copy (docs : List Doc) (page : Page) (origin : Nat × Int) : Prop :=
  ∃ doc, docs[origin.1]? = some doc ∧ (engine.pages doc)[(origin.2 - 1).toNat]? = some page

/-- What the first pass has made of the sources so far. -/
structure PassHolds (pageRanges : Option (List (Option (List PageRange)))) (docs : List Doc)
    (pass : MergePass Bytes) : Prop where
  count : pass.partBytes.length = docs.length
  offset : pass.pageOffset = (origins engine pageRanges docs).length
  outline : List.Forall₂ (Carried (origins engine pageRanges docs)) (sourceEntries engine docs)
    pass.mergedOutline
  parts : ∃ contents, List.Forall₂ engine.Holds pass.partBytes contents ∧
    List.Forall₂ (Copy engine docs) contents.flatten (origins engine pageRanges docs)

theorem copies_numbered {docs : List Doc} {doc : Doc} {numbers : List Int}
    (within : engine.Within doc numbers) :
    List.Forall₂ (Copy engine (docs ++ [doc])) (engine.numbered doc numbers)
      (numbers.map fun p => (docs.length, p)) := by
  induction numbers with
  | nil => exact .nil
  | cons p numbers ih =>
    obtain ⟨low, high⟩ := within p List.mem_cons_self
    have inside : (p - 1).toNat < (engine.pages doc).length := by
      rw [DocEngine.pageCount] at high
      omega
    have here := List.getElem?_eq_getElem inside
    rw [DocEngine.numbered, @List.filterMap_cons_some _ _
      (fun p : Int => (engine.pages doc)[(p - 1).toNat]?) p numbers _ here, List.map_cons]
    apply List.Forall₂.cons
    · exact ⟨doc, by simp, List.getElem?_eq_getElem inside⟩
    · exact ih fun p mem => within p (List.mem_cons_of_mem _ mem)

theorem Copy.append {docs : List Doc} {page : Page} {origin : Nat × Int} (doc : Doc)
    (copy : Copy engine docs page origin) : Copy engine (docs ++ [doc]) page origin := by
  obtain ⟨source, here, there⟩ := copy
  exact ⟨source, by rw [List.getElem?_append_left (List.getElem?_eq_some_iff.mp here).1, here],
    there⟩

/-- The ranges of a source are ranges of its pages. -/
def ValidRanges (pageRanges : Option (List (Option (List PageRange)))) (docs : List Doc) : Prop :=
  ∀ i doc, docs[i]? = some doc → ∀ ranges, rangesAt pageRanges i = some ranges →
    ∀ range ∈ ranges, 1 ≤ range.start ∧ range.start ≤ range.stop ∧
      range.stop ≤ engine.pageCount doc

theorem selection_within {pageRanges : Option (List (Option (List PageRange)))} {i : Nat}
    {doc : Doc} (valid : ∀ ranges, rangesAt pageRanges i = some ranges → ∀ range ∈ ranges,
      1 ≤ range.start ∧ range.start ≤ range.stop ∧ range.stop ≤ engine.pageCount doc) :
    engine.Within doc (selection engine pageRanges i doc) := by
  intro p mem
  rw [selection] at mem
  cases ranged : rangesAt pageRanges i with
  | none =>
    rw [ranged] at mem
    exact PageRange.mem_pages.mp mem
  | some ranges =>
    rw [ranged] at mem
    obtain ⟨range, listed, inside⟩ := List.mem_flatMap.mp mem
    have bounds := PageRange.mem_pages.mp inside
    have := valid ranges ranged range listed
    omega

theorem part_holds (extracts : engine.Extracts)
    {pageRanges : Option (List (Option (List PageRange)))} {i : Nat} {raw : Bytes} {doc : Doc}
    (opens : engine.openDoc raw = .ok doc)
    (within : engine.Within doc (selection engine pageRanges i doc)) :
    engine.Holds (mergePart engine raw doc (rangesAt pageRanges i)).bytes
      (engine.numbered doc (selection engine pageRanges i doc)) := by
  rw [selection] at within ⊢
  cases ranged : rangesAt pageRanges i with
  | none => exact ⟨doc, opens, (numbered_all engine doc).symm⟩
  | some ranges =>
    rw [ranged] at within
    exact extracts doc _ within

theorem early_of_mem {docs : List Doc} {entry : Nat × OutlineEntry}
    (mem : entry ∈ sourceEntries engine docs) : entry.1 < docs.length := by
  simp only [sourceEntries, List.mem_flatMap, List.mem_map] at mem
  obtain ⟨⟨doc, i⟩, here, item, -, rfl⟩ := mem
  exact (List.mem_zipIdx' here).1

theorem PassHolds.next (extracts : engine.Extracts) (resolves : engine.Resolves)
    {pageRanges : Option (List (Option (List PageRange)))} {docs : List Doc}
    {pass : MergePass Bytes} (holds : PassHolds engine pageRanges docs pass) {buffer : Bytes}
    {doc : Doc} (opens : engine.openDoc buffer = .ok doc)
    (within : engine.Within doc (selection engine pageRanges docs.length doc)) :
    PassHolds engine pageRanges (docs ++ [doc])
      (pass.add (mergePart engine buffer doc (rangesAt pageRanges docs.length))
        (engine.outline doc)) := by
  constructor
  · rw [MergePass.add, List.length_append, List.length_append, holds.count]
    rfl
  · rw [MergePass.add, origins_append, List.length_append, List.length_map, holds.offset,
      ← partPageCount_eq engine buffer]
  · rw [sourceEntries_append, MergePass.add]
    apply List.rel_append
    · have early := (List.forall₂_and_left _ _).mpr
        ⟨fun entry mem => early_of_mem engine mem, holds.outline⟩
      exact early.imp fun _ _ ⟨early, carried⟩ => carried.append engine early
    · rw [List.forall₂_map_left_iff, List.forall₂_map_right_iff, List.forall₂_same, holds.offset]
      intro item mem
      exact carried_next engine resolves buffer mem
  · obtain ⟨contents, parts, copies⟩ := holds.parts
    refine ⟨contents ++ [engine.numbered doc (selection engine pageRanges docs.length doc)],
      List.rel_append parts (.cons (part_holds engine extracts opens within) .nil), ?_⟩
    rw [List.flatten_append, List.flatten_singleton, origins_append]
    apply List.rel_append
    · exact copies.imp fun _ _ copy => copy.append engine doc
    · exact copies_numbered engine within

/-- The first pass reaches the last source. -/
theorem foldlM_mergeSource (extracts : engine.Extracts) (resolves : engine.Resolves)
    {pageRanges : Option (List (Option (List PageRange)))} {buffers : List Bytes}
    {docs' : List Doc} (opens : List.Forall₂ (fun b d => engine.openDoc b = .ok d) buffers docs')
    {docs : List Doc} {pass : MergePass Bytes} (holds : PassHolds engine pageRanges docs pass)
    (valid : ValidRanges engine pageRanges (docs ++ docs')) :
    ∃ pass', (buffers.zipIdx docs.length).foldlM (mergeSource engine pageRanges) pass = .ok pass' ∧
      PassHolds engine pageRanges (docs ++ docs') pass' := by
  induction opens generalizing docs pass with
  | nil => exact ⟨pass, rfl, by rwa [List.append_nil]⟩
  | @cons buffer doc buffers docs' here _ ih =>
    have within := selection_within engine (valid docs.length doc (by simp))
    have next := holds.next engine extracts resolves here within
    have together : docs ++ doc :: docs' = (docs ++ [doc]) ++ docs' := by simp
    rw [together] at valid ⊢
    obtain ⟨pass', rest, holds'⟩ := ih next valid
    refine ⟨pass', ?_, holds'⟩
    rw [List.zipIdx_cons, List.foldlM_cons]
    simp only [mergeSource, here]
    rw [List.length_append, List.length_singleton] at rest
    exact rest

theorem pages_foldl_appendPages (appends : engine.Appends) {parts : List Bytes}
    {contents : List (List Page)} (holds : List.Forall₂ engine.Holds parts contents) (base : Doc) :
    engine.pages (parts.foldl engine.appendPages base) =
      engine.pages base ++ contents.flatten := by
  induction holds generalizing base with
  | nil => simp
  | cons here _ ih =>
    rw [List.foldl_cons, ih, appends base _ _ here, List.flatten_cons, List.append_assoc]

/-- Every entry of a source is in the merged outline once, in its place, and its page is that of a
copy of its target, if the target is selected. -/
theorem mergePDFs_outline (extracts : engine.Extracts) (appends : engine.Appends)
    (saves : engine.Saves) (resolves : engine.Resolves) {buffers : List Bytes} {docs : List Doc}
    (opens : List.Forall₂ (fun b d => engine.openDoc b = .ok d) buffers docs)
    (several : 2 ≤ buffers.length) {pageRanges : Option (List (Option (List PageRange)))}
    (valid : ValidRanges engine pageRanges docs) :
    ∃ base merged out pages,
      mergePDFs engine buffers pageRanges = .ok out ∧
      out = engine.saveCompressed
        (if merged = [] then base else engine.setOutline base merged) ∧
      engine.Holds out pages ∧
      List.Forall₂ (Copy engine docs) pages (origins engine pageRanges docs) ∧
      List.Forall₂ (Carried (origins engine pageRanges docs)) (sourceEntries engine docs)
        merged := by
  have start : PassHolds engine pageRanges [] (⟨[], [], 0⟩ : MergePass Bytes) :=
    ⟨rfl, rfl, .nil, [], .nil, .nil⟩
  obtain ⟨pass, ran, holds⟩ := foldlM_mergeSource engine extracts resolves opens start valid
  rw [List.nil_append] at holds
  obtain ⟨contents, parts, copies⟩ := holds.parts
  obtain ⟨partBytes, merged, pageOffset⟩ := pass
  cases parts with
  | nil =>
    have none := holds.count
    rw [← opens.length_eq] at none
    simp only [List.length_nil] at none
    omega
  | @cons first pages rest contents here behind =>
    obtain ⟨base, opened, rfl⟩ := here
    have outlined (doc : Doc) : engine.pages
        (if merged = [] then doc else engine.setOutline doc merged) = engine.pages doc := by
      split
      · rfl
      · exact (saves doc merged).2
    refine ⟨rest.foldl engine.appendPages base, merged, _, _, ?_, rfl, (saves _ []).1, ?_,
      holds.outline⟩
    · rw [mergePDFs, if_neg (by omega)]
      have ran' : buffers.zipIdx.foldlM (mergeSource engine pageRanges) ⟨[], [], 0⟩ =
        .ok ⟨first :: rest, merged, pageOffset⟩ := ran
      rw [ran']
      cases merged <;> simp [bind, Except.bind, mergeParts, opened]
    · rw [outlined, pages_foldl_appendPages engine appends behind]
      exact copies

/-- Of the first document pages 3, 1, 1 and 2 are merged, of the second one all. -/
def twoDocuments : List (List Nat × List OutlineEntry) :=
  [([11, 12, 13], [FlatOutlineEntry.read ⟨0, "One", some 1⟩,
      FlatOutlineEntry.read ⟨1, "Three", some 3⟩]),
    ([21, 22], [FlatOutlineEntry.read ⟨0, "Two", some 2⟩])]

def firstDocumentRanges : Option (List (Option (List PageRange))) :=
  some [some [⟨3, 3⟩, ⟨1, 1⟩, ⟨1, 2⟩]]

theorem firstDocumentRanges_valid : ValidRanges listEngine firstDocumentRanges twoDocuments := by
  intro i doc here ranges ranged
  cases i with
  | zero =>
    obtain rfl := Option.some.inj here
    obtain rfl := Option.some.inj ranged
    decide
  | succ i => simp [rangesAt, firstDocumentRanges] at ranged

theorem mergePDFs_outline_two_documents :
    ∃ base merged out pages,
      mergePDFs listEngine twoDocuments firstDocumentRanges = .ok out ∧
      out = listEngine.saveCompressed
        (if merged = [] then base else listEngine.setOutline base merged) ∧
      listEngine.Holds out pages ∧
      List.Forall₂ (Copy listEngine twoDocuments) pages
        (origins listEngine firstDocumentRanges twoDocuments) ∧
      List.Forall₂ (Carried (origins listEngine firstDocumentRanges twoDocuments))
        (sourceEntries listEngine twoDocuments) merged :=
  mergePDFs_outline listEngine listEngine_extracts listEngine_appends listEngine_saves
    listEngine_resolves
    (.cons rfl (.cons rfl .nil)) (by decide) firstDocumentRanges_valid

end

end GigaPdf
