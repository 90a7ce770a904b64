import GigaPdf.Editor.Elements
import GigaPdf.Lib.Forests

/-!
# Outlines

`bookmark-extractor.ts` makes a tree of the flat outline that the engine reports, and
`outline-bake.ts` makes a flat outline of the tree. An entry without a destination page gets page 1
on the way.
-/

namespace GigaPdf

open Forests

inductive DestKind
  | xyz | fit | fitb | fith | fitbh | fitv | fitbv | other
deriving DecidableEq

structure OutlineEntry where
  level : Nat
  title : Option String
  page : Option Int
  destKind : Option DestKind
  x : Option ℚ
  y : Option ℚ
  zoom : Option ℚ
  bold : Option Bool
  italic : Option Bool
  color : Option Rgb
deriving DecidableEq

inductive BookmarkZoom
  | factor (zoom : ℚ)
  | fit | fitWidth | fitHeight
deriving DecidableEq

structure BookmarkDestination where
  pageNumber : Int
  position : Option (ℚ × ℚ)
  zoom : Option BookmarkZoom
deriving DecidableEq

structure BookmarkStyle where
  bold : Bool
  italic : Bool
  color : String
deriving DecidableEq

/-- A bookmark without its children. -/
structure Bookmark where
  title : String
  destination : BookmarkDestination
  style : BookmarkStyle
deriving DecidableEq

def mapZoom (entry : OutlineEntry) : Option BookmarkZoom :=
  match entry.destKind with
  | some .xyz => (entry.zoom.filter fun z => 0 < z).map .factor
  | some .fit | some .fitb => some .fit
  | some .fith | some .fitbh => some .fitWidth
  | some .fitv | some .fitbv => some .fitHeight
  | some .other | none => none

def mapEntry (entry : OutlineEntry) : Bookmark where
  title := entry.title.getD ""
  destination :=
    { pageNumber := entry.page.getD 1
      position :=
        if entry.destKind = some .xyz then entry.x.bind fun x => entry.y.map fun y => (x, y)
        else none
      zoom := mapZoom entry }
  style :=
    { bold := entry.bold.getD false
      italic := entry.italic.getD false
      color := (entry.color.map rgbToHex).getD "#000000" }

/-! ## The tree -/

/-- A bookmark is referred to by its path, which later bookmarks do not change. `parents` has the
most recent bookmark at each level. -/
structure OutlineBuild where
  roots : Forest Bookmark
  parents : List (Option (List Nat))

/-- The path of the parent; a level jump makes a root. -/
def OutlineBuild.parentPath (build : OutlineBuild) (level : Nat) : List Nat :=
  if level = 0 then [] else (build.parents[level - 1]?.join).getD []

def OutlineBuild.add (build : OutlineBuild) (entry : OutlineEntry) : OutlineBuild :=
  let path := build.parentPath entry.level
  let node := path ++ [(childrenAt path build.roots).length]
  { roots := appendChild path (.node (mapEntry entry) []) build.roots
    parents := build.parents.take entry.level ++
      List.replicate (entry.level - build.parents.length) none ++ [some node] }

def extractBookmarks (outline : List OutlineEntry) : Forest Bookmark :=
  (outline.foldl OutlineBuild.add ⟨[], []⟩).roots

/-! ## The flat outline -/

structure FlatOutlineEntry where
  level : Nat
  title : String
  page : Option Int
deriving DecidableEq

/-- A page that is not positive is no destination. -/
def flatEntry (level : Nat) (node : Bookmark) : FlatOutlineEntry where
  level := level
  title := node.title
  page := some node.destination.pageNumber |>.filter fun page => 0 < page

def flattenOutline (nodes : Forest Bookmark) : List FlatOutlineEntry :=
  (preorder 0 nodes).map fun e => flatEntry e.1 e.2

/-- What an entry says to `setOutline`. -/
def OutlineEntry.flat (entry : OutlineEntry) : FlatOutlineEntry where
  level := entry.level
  title := entry.title.getD ""
  page := entry.page.filter fun page => 0 < page

/-! ## Reading and baking -/

/-- The parents are the prefixes of one rightmost path. -/
def Spine (build : OutlineBuild) (path : List Nat) : Prop :=
  Rightmost path build.roots ∧
    build.parents = (List.range path.length).map fun k => some (path.take (k + 1))

theorem Spine.parentPath {build : OutlineBuild} {path : List Nat} (spine : Spine build path)
    {level : Nat} (bound : level ≤ path.length) : build.parentPath level = path.take level := by
  rw [OutlineBuild.parentPath]
  split
  · rename_i zero
    rw [zero, List.take_zero]
  · have inside : level - 1 < path.length := by omega
    have here : level - 1 + 1 = level := by omega
    simp [spine.2, List.getElem?_map, List.getElem?_range inside, here]

/-- An entry that skips no level comes last in the preorder list, with its level. -/
theorem Spine.add {build : OutlineBuild} {path : List Nat} (spine : Spine build path)
    {entry : OutlineEntry} (bound : entry.level ≤ path.length) :
    ∃ path', path'.length = entry.level + 1 ∧ Spine (build.add entry) path' ∧
      preorder 0 (build.add entry).roots =
        preorder 0 build.roots ++ [(entry.level, mapEntry entry)] := by
  have parent := spine.parentPath bound
  have rightmost := spine.1.take entry.level
  have depth : (path.take entry.level).length = entry.level := by
    rw [List.length_take]
    omega
  refine ⟨path.take entry.level ++ [(childrenAt (path.take entry.level) build.roots).length],
    by rw [List.length_append, depth]; rfl, ⟨?_, ?_⟩, ?_⟩
  · rw [OutlineBuild.add, parent]
    exact rightmost.append _
  · have known : entry.level - build.parents.length = 0 := by
      rw [spine.2, List.length_map, List.length_range]
      omega
    have before : build.parents.take entry.level =
        (List.range entry.level).map fun k => some (path.take (k + 1)) := by
      rw [spine.2, ← List.map_take, List.take_range, Nat.min_eq_left bound]
    have prefixes : ∀ k < entry.level,
        (path.take entry.level ++
          [(childrenAt (path.take entry.level) build.roots).length]).take (k + 1) =
          path.take (k + 1) := by
      intro k lt
      rw [List.take_append_of_le_length (by omega), List.take_take, Nat.min_eq_left (by omega)]
    rw [List.length_append, List.length_singleton, depth, List.range_succ, List.map_append,
      List.map_singleton, OutlineBuild.add, parent]
    simp only [known, List.replicate_zero, List.append_nil, before]
    have whole : (path.take entry.level ++
        [(childrenAt (path.take entry.level) build.roots).length]).take (entry.level + 1) =
        path.take entry.level ++ [(childrenAt (path.take entry.level) build.roots).length] := by
      apply List.take_of_length_le
      rw [List.length_append, depth]
      exact Nat.le_refl _
    rw [whole]
    congr 1
    apply List.map_congr_left
    intro k mem
    rw [prefixes k (List.mem_range.mp mem)]
  · rw [OutlineBuild.add, parent]
    simp only
    rw [preorder_appendChild rightmost, depth, Nat.zero_add, preorder_cons]
    rfl

/-- The tree has the entries in their order, each at its level. -/
theorem preorder_extractBookmarks {entries : List OutlineEntry}
    (levels : WellFormedLevels 0 (entries.map OutlineEntry.level)) :
    preorder 0 (extractBookmarks entries) = entries.map fun e => (e.level, mapEntry e) := by
  have run : ∀ (entries : List OutlineEntry) (build : OutlineBuild) (path : List Nat),
      Spine build path → WellFormedLevels path.length (entries.map OutlineEntry.level) →
      preorder 0 (entries.foldl OutlineBuild.add build).roots =
        preorder 0 build.roots ++ entries.map fun e => (e.level, mapEntry e) := by
    intro entries
    induction entries with
    | nil =>
      intro build _ _ _
      rw [List.map_nil, List.append_nil]
      rfl
    | cons entry entries ih =>
      intro build path spine levels
      obtain ⟨bound, levels⟩ := levels
      obtain ⟨path', length, spine', added⟩ := spine.add bound
      rw [← length] at levels
      rw [List.foldl_cons, ih _ path' spine' levels, added, List.append_assoc]
      rfl
  exact run entries ⟨[], []⟩ [] ⟨trivial, rfl⟩ levels

theorem flattenOutline_extractBookmarks {entries : List OutlineEntry}
    (levels : WellFormedLevels 0 (entries.map OutlineEntry.level)) :
    flattenOutline (extractBookmarks entries) =
      entries.map fun e => flatEntry e.level (mapEntry e) := by
  rw [flattenOutline, preorder_extractBookmarks levels, List.map_map]
  rfl

/-- Level and title are kept; an absent page becomes page 1. -/
theorem flatEntry_mapEntry (entry : OutlineEntry) :
    flatEntry entry.level (mapEntry entry) =
      { entry.flat with page := if entry.page = none then some 1 else entry.flat.page } := by
  cases page : entry.page with
  | none => simp [flatEntry, mapEntry, OutlineEntry.flat, page, Option.filter]
  | some n => simp [flatEntry, mapEntry, OutlineEntry.flat, page]

theorem flatEntry_mapEntry_iff (entry : OutlineEntry) :
    flatEntry entry.level (mapEntry entry) = entry.flat ↔ entry.page ≠ none := by
  rw [flatEntry_mapEntry]
  cases page : entry.page with
  | none => simp [OutlineEntry.flat, page]
  | some n => simp

theorem levels_flattenOutline (ts : Forest Bookmark) :
    (flattenOutline ts).map FlatOutlineEntry.level = (preorder 0 ts).map Prod.fst := by
  rw [flattenOutline, List.map_map]
  rfl

theorem wellFormedLevels_flattenOutline (ts : Forest Bookmark) :
    WellFormedLevels 0 ((flattenOutline ts).map FlatOutlineEntry.level) := by
  have all : WellFormedLevels 0 ((preorder 0 ts).map Prod.fst ++ []) := by
    apply wellFormedLevels_preorder ts (Nat.le_refl 0)
    intro _ _
    trivial
  rwa [List.append_nil, ← levels_flattenOutline] at all

/-- A flat outline with the levels and the titles of a tree makes this tree, titles included. -/
theorem map_title_extractBookmarks {ts : Forest Bookmark} {entries : List OutlineEntry}
    (same : entries.map OutlineEntry.flat = flattenOutline ts) :
    map Bookmark.title (extractBookmarks entries) = map Bookmark.title ts := by
  have levels : WellFormedLevels 0 (entries.map OutlineEntry.level) := by
    have flat := wellFormedLevels_flattenOutline ts
    rw [← same, List.map_map] at flat
    exact flat
  have titles := congrArg (List.map fun e => (e.level, e.title)) same
  rw [flattenOutline, List.map_map, List.map_map] at titles
  apply @preorder_injective _ _ _ 0
  rw [preorder_map, preorder_map, preorder_extractBookmarks levels, List.map_map]
  exact titles

/-- Levels and titles survive, and the tree of a flattened tree has its shape. The destinations
survive exactly when every entry has one. -/
theorem outline_roundTrip {entries : List OutlineEntry} (ts : Forest Bookmark)
    (outline : List FlatOutlineEntry → List OutlineEntry)
    (levels : WellFormedLevels 0 (entries.map OutlineEntry.level))
    (stored : ∀ ts, (outline (flattenOutline ts)).map OutlineEntry.flat = flattenOutline ts) :
    (flattenOutline (extractBookmarks entries) = entries.map OutlineEntry.flat ↔
      ∀ e ∈ entries, e.page ≠ none) ∧
    (flattenOutline (extractBookmarks entries)).map (fun e => (e.level, e.title)) =
      entries.map (fun e => (e.flat.level, e.flat.title)) ∧
    map Bookmark.title (extractBookmarks (outline (flattenOutline ts))) =
      map Bookmark.title ts := by
  have flattened := flattenOutline_extractBookmarks levels
  refine ⟨?_, ?_, map_title_extractBookmarks (stored ts)⟩
  · rw [flattened, List.map_inj_left]
    constructor
    · intro same e mem
      exact (flatEntry_mapEntry_iff e).mp (same e mem)
    · intro paged e mem
      exact (flatEntry_mapEntry_iff e).mpr (paged e mem)
  · rw [flattened, List.map_map]
    rfl

/-- An entry as `outline` reads it back. -/
def FlatOutlineEntry.read (entry : FlatOutlineEntry) : OutlineEntry where
  level := entry.level
  title := some entry.title
  page := entry.page
  destKind := none
  x := none
  y := none
  zoom := none
  bold := none
  italic := none
  color := none

theorem map_flat_map_read (ts : Forest Bookmark) :
    ((flattenOutline ts).map FlatOutlineEntry.read).map OutlineEntry.flat = flattenOutline ts := by
  rw [flattenOutline, List.map_map, List.map_map, List.map_inj_left]
  rintro ⟨level, node⟩ _
  simp [flatEntry, FlatOutlineEntry.read, OutlineEntry.flat, Option.filter_filter]

theorem outline_roundTrip_chapters :
    ∃ entries, flattenOutline (extractBookmarks entries) = entries.map OutlineEntry.flat ∧
      entries.map OutlineEntry.level = [0, 1, 1, 0] :=
  ⟨[FlatOutlineEntry.read ⟨0, "Part I", some 3⟩, FlatOutlineEntry.read ⟨1, "One", some 4⟩,
      FlatOutlineEntry.read ⟨1, "Two", some 9⟩, FlatOutlineEntry.read ⟨0, "Part II", some 20⟩],
    (outline_roundTrip [] (List.map FlatOutlineEntry.read)
      (by simp [FlatOutlineEntry.read, WellFormedLevels]) map_flat_map_read).1.mpr
      (by simp [FlatOutlineEntry.read]), rfl⟩

/-- A heading without a destination comes back with a destination on page 1. -/
theorem outline_roundTrip_heading :
    ¬∀ entries : List OutlineEntry, WellFormedLevels 0 (entries.map OutlineEntry.level) →
      flattenOutline (extractBookmarks entries) = entries.map OutlineEntry.flat := by
  intro all
  have same := all [FlatOutlineEntry.read ⟨0, "Part I", none⟩,
    FlatOutlineEntry.read ⟨1, "One", some 4⟩] ⟨Nat.le_refl 0, Nat.le_refl 1, trivial⟩
  revert same
  decide

end GigaPdf
