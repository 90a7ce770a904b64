import GigaPdf.Editor.Coordinates
import GigaPdf.Lib.Bisection

/-!
# The layout of the pages

`page-layout.ts`: the pages stand below each other, and the page in focus is the one whose centre
is nearest to that of the viewport. Lengths are rational numbers here.
-/

namespace GigaPdf

open Spacing

def pageGapPx : ℚ := 24

def pageVPaddingPx : ℚ := 16

structure PageDimensions where
  width : ℚ
  height : ℚ
  rotation : Rotation
deriving DecidableEq

structure PageSlot where
  top : ℚ
  height : ℚ
  width : ℚ
deriving DecidableEq

structure PageLayout where
  slots : List PageSlot
  totalHeight : ℚ
  contentWidth : ℚ
deriving DecidableEq

/-- Width and height of the page as it is turned. -/
def effectivePagePoints (dimensions : PageDimensions) : ℚ × ℚ :=
  if dimensions.rotation.sideways then (dimensions.height, dimensions.width)
  else (dimensions.width, dimensions.height)

/-! ## Slots -/

/-- What the loop over the pages has laid out. -/
structure LaidOut where
  slots : List PageSlot
  cursor : ℚ
  contentWidth : ℚ

def LaidOut.place (scale : ℚ) (laid : LaidOut) (page : PageDimensions) : LaidOut :=
  let width := (effectivePagePoints page).1 * scale
  let height := (effectivePagePoints page).2 * scale
  { slots := laid.slots ++ [⟨laid.cursor, height, width⟩]
    contentWidth := if laid.contentWidth < width then width else laid.contentWidth
    cursor := laid.cursor + (height + pageGapPx) }

def layoutScale (zoom : ℚ) : ℚ := if 0 < zoom then zoom else 1

def computePageLayout (pages : List PageDimensions) (zoom : ℚ) : PageLayout :=
  let laid := pages.foldl (LaidOut.place (layoutScale zoom)) ⟨[], pageVPaddingPx, 0⟩
  { slots := laid.slots
    totalHeight :=
      if laid.slots ≠ [] then laid.cursor - pageGapPx + pageVPaddingPx else pageVPaddingPx * 2
    contentWidth := laid.contentWidth }

/-! ## The page in focus -/

def centreOf (slot : PageSlot) : ℚ := slot.top + slot.height / 2

def pageIndexAtScroll (slots : List PageSlot) (scrollTop viewportH : ℚ) : Nat :=
  if slots = [] then 0
  else
    Bisection.search (slots.map centreOf) (scrollTop + viewportH / 2) slots.length 0 slots.length
      (0, none)

/-! ## Centres in their order -/

/-- The centres rise, and the cursor is below all of them. -/
structure LaidOut.Ordered (laid : LaidOut) : Prop where
  rising : (laid.slots.map centreOf).Pairwise (· < ·)
  above : ∀ slot ∈ laid.slots, centreOf slot < laid.cursor

def PageDimensions.Nonneg (page : PageDimensions) : Prop := 0 ≤ page.width ∧ 0 ≤ page.height

theorem effectivePagePoints_nonneg {page : PageDimensions} (nonneg : page.Nonneg) :
    0 ≤ (effectivePagePoints page).2 := by
  rw [effectivePagePoints]
  split
  · exact nonneg.1
  · exact nonneg.2

theorem layoutScale_pos (zoom : ℚ) : 0 < layoutScale zoom := by
  rw [layoutScale]
  split
  · assumption
  · exact one_pos

theorem LaidOut.Ordered.place {laid : LaidOut} (ordered : laid.Ordered) {scale : ℚ}
    (positive : 0 < scale) {page : PageDimensions} (nonneg : page.Nonneg) :
    (laid.place scale page).Ordered := by
  have height : 0 ≤ (effectivePagePoints page).2 * scale :=
    mul_nonneg (effectivePagePoints_nonneg nonneg) positive.le
  have gap : (0 : ℚ) < pageGapPx := by norm_num [pageGapPx]
  constructor
  · rw [LaidOut.place, List.map_append, List.pairwise_append]
    refine ⟨ordered.rising, List.pairwise_singleton _ _, ?_⟩
    intro centre before next last
    obtain ⟨slot, placed, rfl⟩ := List.mem_map.mp before
    rw [List.map_singleton, List.mem_singleton] at last
    have below : laid.cursor ≤ next := by
      rw [last, centreOf]
      linarith
    exact (ordered.above slot placed).trans_le below
  · intro slot mem
    obtain mem | last := List.mem_append.mp mem
    · have above := ordered.above slot mem
      simp only [LaidOut.place]
      linarith
    · rw [List.mem_singleton.mp last, centreOf]
      simp only [LaidOut.place]
      linarith

theorem foldl_place_ordered {pages : List PageDimensions}
    (nonneg : ∀ page ∈ pages, page.Nonneg) {scale : ℚ} (positive : 0 < scale) {laid : LaidOut}
    (ordered : laid.Ordered) : (pages.foldl (LaidOut.place scale) laid).Ordered := by
  induction pages generalizing laid with
  | nil => exact ordered
  | cons page pages ih =>
    obtain ⟨first, rest⟩ := List.forall_mem_cons.mp nonneg
    exact ih rest (ordered.place positive first)

theorem computePageLayout_rising {pages : List PageDimensions}
    (nonneg : ∀ page ∈ pages, page.Nonneg) (zoom : ℚ) :
    ((computePageLayout pages zoom).slots.map centreOf).Pairwise (· < ·) := by
  have start : LaidOut.Ordered ⟨[], pageVPaddingPx, 0⟩ := ⟨.nil, nofun⟩
  exact (foldl_place_ordered nonneg (layoutScale_pos zoom) start).rising

/-- There is one slot for each page. -/
theorem length_foldl_place (pages : List PageDimensions) (scale : ℚ) (laid : LaidOut) :
    (pages.foldl (LaidOut.place scale) laid).slots.length = laid.slots.length + pages.length := by
  induction pages generalizing laid with
  | nil => rfl
  | cons page pages ih =>
    rw [List.foldl_cons, ih, LaidOut.place, List.length_append, List.length_singleton,
      List.length_cons]
    omega

theorem length_computePageLayout (pages : List PageDimensions) (zoom : ℚ) :
    (computePageLayout pages zoom).slots.length = pages.length := by
  rw [computePageLayout, length_foldl_place, List.length_nil, Nat.zero_add]

/-! ## The nearest page -/

/-- No slot has a centre nearer to that of the viewport. -/
def Focused (slots : List PageSlot) (scrollTop viewportH : ℚ) (i : Nat) : Prop :=
  ∃ slot, slots[i]? = some slot ∧ ∀ other ∈ slots,
    |centreOf slot - (scrollTop + viewportH / 2)| ≤ |centreOf other - (scrollTop + viewportH / 2)|

section
variable {slots : List PageSlot} {scrollTop viewportH : ℚ}

theorem focused_iff {i : Nat} : Focused slots scrollTop viewportH i ↔
    Nearest (slots.map centreOf) (scrollTop + viewportH / 2) i := by
  constructor
  · rintro ⟨slot, here, least⟩
    refine ⟨centreOf slot, by rw [List.getElem?_map, here]; rfl, fun centre mem => ?_⟩
    obtain ⟨other, there, rfl⟩ := List.mem_map.mp mem
    exact least other there
  · rintro ⟨centre, here, least⟩
    rw [List.getElem?_map, Option.map_eq_some_iff] at here
    obtain ⟨slot, here, rfl⟩ := here
    exact ⟨slot, here, fun other mem => least _ (List.mem_map_of_mem mem)⟩

theorem pageIndexAtScroll_focused (rising : (slots.map centreOf).Pairwise (· < ·))
    (nonempty : slots ≠ []) :
    Focused slots scrollTop viewportH (pageIndexAtScroll slots scrollTop viewportH) := by
  have nearest := @Bisection.search_nearest _ _ _ _ (scrollTop + viewportH / 2) _ rising
    (mt List.map_eq_nil_iff.mp nonempty)
  rw [List.length_map] at nearest
  rw [focused_iff, pageIndexAtScroll, if_neg nonempty]
  exact nearest

theorem pageIndexAtScroll_mono (rising : (slots.map centreOf).Pairwise (· < ·)) :
    Monotone fun scrollTop => pageIndexAtScroll slots scrollTop viewportH := by
  intro scrollTop scrollTop' le
  obtain rfl | less := le.eq_or_lt
  · exact le_rfl
  · by_cases empty : slots = []
    · simp [pageIndexAtScroll, empty]
    · apply Bisection.nearest_mono rising _ (focused_iff.mp (pageIndexAtScroll_focused rising empty))
        (focused_iff.mp (pageIndexAtScroll_focused rising empty))
      exact add_lt_add_left less _

end

/-- The page in focus is a nearest one, and it does not go back when the view is scrolled down. -/
theorem pageIndexAtScroll_nearest (pages : List PageDimensions)
    (nonneg : ∀ page ∈ pages, page.Nonneg) (zoom viewportH : ℚ) :
    let slots := (computePageLayout pages zoom).slots
    slots.length = pages.length ∧
      (∀ scrollTop,
        if pages = [] then pageIndexAtScroll slots scrollTop viewportH = 0
        else Focused slots scrollTop viewportH (pageIndexAtScroll slots scrollTop viewportH)) ∧
      Monotone fun scrollTop => pageIndexAtScroll slots scrollTop viewportH := by
  have length := length_computePageLayout pages zoom
  have rising := computePageLayout_rising nonneg zoom
  refine ⟨length, fun scrollTop => ?_, pageIndexAtScroll_mono rising⟩
  split
  · rename_i empty
    rw [empty, List.length_nil, List.length_eq_zero_iff] at length
    rw [empty, pageIndexAtScroll, if_pos length]
  · rename_i nonempty
    apply pageIndexAtScroll_focused rising
    rintro none
    rw [none, List.length_nil] at length
    exact nonempty (List.length_eq_zero_iff.mp length.symm)

/-- Three portrait pages of which the second is turned; the view is between the last two. -/
theorem pageIndexAtScroll_nearest_three_pages :
    let slots := (computePageLayout [⟨600, 800, .r0⟩, ⟨600, 800, .r90⟩, ⟨600, 800, .r0⟩] 2).slots
    Focused slots 2700 600 2 ∧ pageIndexAtScroll slots 2700 600 = 2 ∧
      Monotone fun scrollTop => pageIndexAtScroll slots scrollTop 600 := by
  have nonneg : ∀ page ∈ [(⟨600, 800, .r0⟩ : PageDimensions), ⟨600, 800, .r90⟩, ⟨600, 800, .r0⟩],
      page.Nonneg := by
    simp [PageDimensions.Nonneg]
  obtain ⟨-, focused, mono⟩ := pageIndexAtScroll_nearest _ nonneg 2 600
  have index : pageIndexAtScroll (computePageLayout
      [⟨600, 800, .r0⟩, ⟨600, 800, .r90⟩, ⟨600, 800, .r0⟩] 2).slots 2700 600 = 2 := by
    norm_num [pageIndexAtScroll, computePageLayout, layoutScale, LaidOut.place, effectivePagePoints,
      Rotation.sideways, pageGapPx, pageVPaddingPx, centreOf, Bisection.search, Bisection.nearer]
    exact List.cons_ne_nil _ _
  have here := focused 2700
  rw [if_neg (List.cons_ne_nil _ _), index] at here
  exact ⟨here, index, mono⟩

end GigaPdf
