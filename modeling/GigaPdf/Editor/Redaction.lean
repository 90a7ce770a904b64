import GigaPdf.Editor.Coordinates
import GigaPdf.Lib.Buckets

/-!
# Redaction zones

`redact-pii.ts`: the zones that the user draws on the displayed pages, lowered to the rectangles
that are blacked out.
-/

namespace GigaPdf

/-- `pageNumber` counts from 1. -/
structure WebRedactionRect extends Rect ℚ where
  pageNumber : Nat

/-- The size of a page as it is displayed. -/
structure PageGeometry where
  width : ℚ
  height : ℚ
  rotation : Option Rotation

def webRectToPdf (rect : Bounds) (geo : PageGeometry) : Bounds :=
  match geo.rotation.getD .r0 with
  | .r90 | .r270 => ⟨rect.x, geo.height - rect.y - rect.height, rect.width, rect.height⟩
  | .r180 => ⟨geo.width - rect.x - rect.width, rect.y, rect.width, rect.height⟩
  | .r0 => ⟨rect.x, geo.height - rect.y - rect.height, rect.width, rect.height⟩

/-- An empty rectangle is dropped, and so is one on an unknown page. -/
def groupRectsByPage (rects : List WebRedactionRect)
    (pageGeometries : Nat → Option PageGeometry) : Buckets Nat Bounds :=
  Buckets.collect (fun rect =>
    if rect.width ≤ 0 ∨ rect.height ≤ 0 then none
    else (pageGeometries rect.pageNumber).map fun geo =>
      (rect.pageNumber, webRectToPdf rect.toRect geo)) rects

/-! ## Coverage -/

namespace PageGeometry

variable (geo : PageGeometry)

/-- The page as it is displayed at one pixel a point. -/
def placement : PdfPlacementContext :=
  match geo.rotation.getD .r0 with
  | .r0 => displayedPage geo.width geo.height .r0
  | .r90 => displayedPage geo.height geo.width .r90
  | .r180 => displayedPage geo.width geo.height .r180
  | .r270 => displayedPage geo.height geo.width .r270

/-- Where the points of a rectangle of the display are on the page. -/
def shown (rect : Bounds) : Set (ℚ × ℚ) :=
  (fun p => geo.placement.toUser p.1 p.2) '' rect.points

theorem shown_eq (wide : 0 < geo.width) (high : 0 < geo.height) (rect : Bounds) :
    geo.shown rect = (userRect geo.placement.pageWidth geo.placement.pageHeight
      geo.placement.rotation rect).points := by
  have scale : geo.placement.scale = 1 := by
    rw [placement]
    split
    · exact displayedPage_scale wide high _
    · exact displayedPage_scale high wide _
    · exact displayedPage_scale wide high _
    · exact displayedPage_scale high wide _
  rw [shown, ← image_userPoint]
  apply Set.image_congr
  rintro p -
  rw [PdfPlacementContext.toUser_eq, scale, mul_one, mul_one]

end PageGeometry

/-- The rectangle that is blacked out is just what the user sees in the zone. -/
def Covers (rect : Bounds) (geo : PageGeometry) : Prop :=
  (webRectToPdf rect geo).points = geo.shown rect

/-- The page is not displayed on its side, or the zone is empty, or it is a square that the quarter
turn and the flip take to the same place. -/
def ZoneMapped (rect : Bounds) (geo : PageGeometry) : Prop :=
  geo.placement.rotation.sideways = false ∨ ¬ rect.Proper ∨
    MappedAlike geo.placement.pageWidth geo.placement.pageHeight geo.placement.rotation rect

theorem webRectToPdf_proper (rect : Bounds) (geo : PageGeometry) :
    (webRectToPdf rect geo).Proper ↔ rect.Proper := by
  rw [webRectToPdf]
  split <;> exact Iff.rfl

/-- On an upright page and upside down the zone is mapped right, and else as `webToPdf` maps it. -/
theorem webRectToPdf_eq_userRect_iff {rect : Bounds} {geo : PageGeometry} :
    webRectToPdf rect geo = userRect geo.placement.pageWidth geo.placement.pageHeight
      geo.placement.rotation rect ↔
    geo.placement.rotation.sideways = false ∨
      MappedAlike geo.placement.pageWidth geo.placement.pageHeight geo.placement.rotation rect := by
  obtain ⟨width, height, rotation⟩ := geo
  cases turned : rotation.getD .r0 with
  | r0 =>
    have upright : PageGeometry.placement ⟨width, height, rotation⟩ =
        displayedPage width height .r0 := by
      simp only [PageGeometry.placement, turned]
    simp only [upright, webRectToPdf, turned]
    exact iff_of_true rfl (.inl rfl)
  | r180 =>
    have upsideDown : PageGeometry.placement ⟨width, height, rotation⟩ =
        displayedPage width height .r180 := by
      simp only [PageGeometry.placement, turned]
    simp only [upsideDown, webRectToPdf, turned]
    exact iff_of_true rfl (.inl rfl)
  | r90 =>
    have turnedRight : PageGeometry.placement ⟨width, height, rotation⟩ =
        displayedPage height width .r90 := by
      simp only [PageGeometry.placement, turned]
    have same : webRectToPdf rect ⟨width, height, rotation⟩ =
        webToPdf rect.x rect.y rect.width rect.height width (some height) (some .r90) := by
      simp only [webRectToPdf, turned, webToPdf, Option.getD_some]
    rw [same, turnedRight]
    simp only [displayedPage, Rotation.sideways, Bool.true_eq_false, false_or]
    exact webToPdf_eq_userRect_iff
  | r270 =>
    have turnedLeft : PageGeometry.placement ⟨width, height, rotation⟩ =
        displayedPage height width .r270 := by
      simp only [PageGeometry.placement, turned]
    have same : webRectToPdf rect ⟨width, height, rotation⟩ =
        webToPdf rect.x rect.y rect.width rect.height width (some height) (some .r270) := by
      simp only [webRectToPdf, turned, webToPdf, Option.getD_some]
    rw [same, turnedLeft]
    simp only [displayedPage, Rotation.sideways, Bool.true_eq_false, false_or]
    exact webToPdf_eq_userRect_iff

theorem covers_iff {rect : Bounds} {geo : PageGeometry} (wide : 0 < geo.width)
    (high : 0 < geo.height) : Covers rect geo ↔ ZoneMapped rect geo := by
  rw [Covers, geo.shown_eq wide high, ZoneMapped]
  by_cases proper : rect.Proper
  · rw [Rect.points_eq_iff ((webRectToPdf_proper rect geo).mpr proper),
      webRectToPdf_eq_userRect_iff, or_iff_right (not_not.mpr proper)]
  · have empty : (webRectToPdf rect geo).points = ∅ :=
      Rect.points_eq_empty (mt (webRectToPdf_proper rect geo).mp proper)
    have empty' := Rect.points_eq_empty (mt (userRect_proper geo.placement.pageWidth
      geo.placement.pageHeight geo.placement.rotation).mp proper)
    rw [empty, empty']
    exact iff_of_true rfl (.inr (.inl proper))

/-! ## The zones of a document -/

section
variable (rects : List WebRedactionRect) (pageGeometries : Nat → Option PageGeometry)

/-- The zones on a known page that are not empty, in the order in which they were drawn. -/
def drawnZones (page : Nat) : List (Bounds × PageGeometry) :=
  rects.filterMap fun rect =>
    if rect.pageNumber = page ∧ 0 < rect.width ∧ 0 < rect.height then
      (pageGeometries page).map fun geo => (rect.toRect, geo)
    else none

/-- Every page has its zones blacked out, each by one rectangle that covers it. -/
structure ZonesBaked : Prop where
  pages : (groupRectsByPage rects pageGeometries).keys.Nodup
  covered : ∀ page, List.Forall₂ (fun zone baked => baked.points = zone.2.shown zone.1)
    (drawnZones rects pageGeometries page) ((groupRectsByPage rects pageGeometries).get page)

theorem get_groupRectsByPage (page : Nat) :
    (groupRectsByPage rects pageGeometries).get page =
      (drawnZones rects pageGeometries page).map fun zone => webRectToPdf zone.1 zone.2 := by
  rw [groupRectsByPage, Buckets.get_collect, drawnZones, List.map_filterMap]
  apply List.filterMap_congr
  intro rect _
  by_cases empty : rect.width ≤ 0 ∨ rect.height ≤ 0
  · have dropped : ¬ (rect.pageNumber = page ∧ 0 < rect.width ∧ 0 < rect.height) := by
      rintro ⟨-, wide, high⟩
      exact empty.elim (not_le.mpr wide) (not_le.mpr high)
    rw [if_pos empty, if_neg dropped]
    rfl
  · have drawn : 0 < rect.width ∧ 0 < rect.height := by
      rwa [not_or, not_le, not_le] at empty
    rw [if_neg empty]
    by_cases here : rect.pageNumber = page
    · rw [if_pos ⟨here, drawn⟩, here]
      cases pageGeometries page <;> simp
    · rw [if_neg fun h => here h.1]
      cases pageGeometries rect.pageNumber <;> simp [here]

end

theorem zonesBaked_iff {rects : List WebRedactionRect}
    {pageGeometries : Nat → Option PageGeometry} :
    ZonesBaked rects pageGeometries ↔
      ∀ page, ∀ zone ∈ drawnZones rects pageGeometries page, Covers zone.1 zone.2 := by
  constructor
  · intro baked page
    have covered := baked.covered page
    rw [get_groupRectsByPage, List.forall₂_map_right_iff, List.forall₂_same] at covered
    exact covered
  · intro covered
    refine ⟨Buckets.nodup_collect _ _, fun page => ?_⟩
    rw [get_groupRectsByPage, List.forall₂_map_right_iff, List.forall₂_same]
    exact covered page

theorem drawnZones_sized {rects : List WebRedactionRect}
    {pageGeometries : Nat → Option PageGeometry}
    (sized : ∀ page geo, pageGeometries page = some geo → 0 < geo.width ∧ 0 < geo.height)
    {page : Nat} {zone : Bounds × PageGeometry} (h : zone ∈ drawnZones rects pageGeometries page) :
    0 < zone.2.width ∧ 0 < zone.2.height := by
  obtain ⟨rect, -, h⟩ := List.mem_filterMap.mp h
  rw [Option.ite_none_right_eq_some] at h
  obtain ⟨geo, known, rfl⟩ := Option.map_eq_some_iff.mp h.2
  exact sized page geo known

/-- A zone is covered unless its page is displayed on its side, and the document's zones are just
when each is. -/
theorem redaction_zones_covered_iff (rects : List WebRedactionRect)
    (pageGeometries : Nat → Option PageGeometry)
    (sized : ∀ page geo, pageGeometries page = some geo → 0 < geo.width ∧ 0 < geo.height) :
    (∀ page geo rect, pageGeometries page = some geo → (Covers rect geo ↔ ZoneMapped rect geo)) ∧
      (ZonesBaked rects pageGeometries ↔
        ∀ page, ∀ zone ∈ drawnZones rects pageGeometries page, ZoneMapped zone.1 zone.2) := by
  constructor
  · intro page geo rect known
    obtain ⟨wide, high⟩ := sized page geo known
    exact covers_iff wide high
  · rw [zonesBaked_iff]
    apply forall_congr'
    intro page
    apply forall₂_congr
    intro zone drawn
    obtain ⟨wide, high⟩ := drawnZones_sized sized drawn
    exact covers_iff wide high

/-- A document of one page. -/
def onePage (rotation : Rotation) (page : Nat) : Option PageGeometry :=
  if page = 1 then some ⟨612, 792, some rotation⟩ else none

theorem onePage_sized {rotation : Rotation} (page : Nat) (geo : PageGeometry)
    (h : onePage rotation page = some geo) : 0 < geo.width ∧ 0 < geo.height := by
  rw [onePage, Option.ite_none_right_eq_some] at h
  cases h.2
  norm_num

theorem redaction_zones_covered_upright :
    Covers ⟨10, 20, 40, 30⟩ ⟨612, 792, some .r180⟩ ∧
    ZonesBaked [⟨⟨10, 20, 40, 30⟩, 1⟩] (onePage .r0) := by
  constructor
  · exact ((redaction_zones_covered_iff [] (onePage .r180) onePage_sized).1 1 _ _ rfl).mpr (.inl rfl)
  · apply (redaction_zones_covered_iff [⟨⟨10, 20, 40, 30⟩, 1⟩] (onePage .r0) onePage_sized).2.mpr
    intro page zone drawn
    obtain ⟨rect, -, h⟩ := List.mem_filterMap.mp drawn
    rw [Option.ite_none_right_eq_some] at h
    obtain ⟨geo, known, rfl⟩ := Option.map_eq_some_iff.mp h.2
    rw [onePage, Option.ite_none_right_eq_some] at known
    cases known.2
    exact .inl rfl

/-- On a page displayed on its side a corner of the zone stays as it is, and another area is
blacked out. -/
theorem redaction_zone_misses :
    ¬ Covers ⟨10, 20, 40, 30⟩ ⟨612, 792, some .r90⟩ ∧
    ¬ Covers ⟨10, 20, 40, 30⟩ ⟨612, 792, some .r270⟩ ∧
    ¬ ZonesBaked [⟨⟨10, 20, 40, 30⟩, 1⟩] (onePage .r90) := by
  have missed : ∀ rotation, ZoneMapped ⟨10, 20, 40, 30⟩ ⟨612, 792, some rotation⟩ →
      rotation = .r0 ∨ rotation = .r180 := by
    intro rotation mapped
    cases rotation with
    | r0 => exact .inl rfl
    | r180 => exact .inr rfl
    | r90 | r270 =>
      norm_num [ZoneMapped, PageGeometry.placement, displayedPage, Rotation.sideways,
        MappedAlike, Rect.Proper] at mapped
  have uncovered : ∀ rotation, Covers ⟨10, 20, 40, 30⟩ ⟨612, 792, some rotation⟩ →
      rotation = .r0 ∨ rotation = .r180 := fun rotation covers =>
    missed rotation ((covers_iff (by norm_num) (by norm_num)).mp covers)
  refine ⟨fun covers => ?_, fun covers => ?_, fun baked => ?_⟩
  · exact absurd (uncovered .r90 covers) (by decide)
  · exact absurd (uncovered .r270 covers) (by decide)
  · have drawn : ((⟨10, 20, 40, 30⟩ : Bounds), (⟨612, 792, some .r90⟩ : PageGeometry)) ∈
        drawnZones [⟨⟨10, 20, 40, 30⟩, 1⟩] (onePage .r90) 1 := by
      norm_num [drawnZones, onePage]
    exact absurd (uncovered .r90 (zonesBaked_iff.mp baked 1 _ drawn)) (by decide)

end GigaPdf
