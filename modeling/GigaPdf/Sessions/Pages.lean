import Mathlib.Logic.Embedding.Basic
import Mathlib.Tactic.NormNum
import GigaPdf.Lib.Lockstep
import GigaPdf.Lib.Runs
import GigaPdf.Lib.Traversal
import GigaPdf.Sessions.Documents

/-!
# The pages of a session

A session has its pages twice: in the bytes that the engine edits with pikepdf, and in its scene
graph. `add_page`, `delete_page`, `rotate_page` and `reorder_pages` edit both.
-/

namespace GigaPdf.Sessions

open Lockstep Traversal

/-! ## The engine -/

structure Corners where
  x0 : ℚ
  y0 : ℚ
  x1 : ℚ
  y1 : ℚ

/-- `contents` is what the page operations leave alone. -/
structure PdfPage (κ : Type) where
  contents : κ
  mediaBox : Corners
  rotate : Option Int

namespace PdfPage

variable {κ : Type} (page : PdfPage κ)

def width : ℚ := page.mediaBox.x1 - page.mediaBox.x0

def height : ℚ := page.mediaBox.y1 - page.mediaBox.y0

def rotation : Int := page.rotate.getD 0

end PdfPage

inductive OpenError
  | password
  | pdf
deriving DecidableEq

/-- What the engine uses of pikepdf: a file that it has saved opens without a password, and has the
pages that were saved. `blank` is an empty dictionary of resources. -/
structure Pikepdf (κ β : Type) where
  unlock : β → Option (List Char) → Except OpenError Unit
  pages : β → List (PdfPage κ)
  save : β → List (PdfPage κ) → β
  saveNew : List (PdfPage κ) → β
  blank : κ
  unlock_save : ∀ bytes pdfPages, unlock (save bytes pdfPages) none = .ok ()
  pages_save : ∀ bytes pdfPages, pages (save bytes pdfPages) = pdfPages
  unlock_saveNew : ∀ pdfPages, unlock (saveNew pdfPages) none = .ok ()
  pages_saveNew : ∀ pdfPages, pages (saveNew pdfPages) = pdfPages

inductive PageError
  | documentNotOpen
  | unopened (error : OpenError)
  | pageOutOfRange (pageNumber : Int) (pages : Nat)
  | indexOutOfRange
  | invalidOrder (newOrder : List Int) (pages : Nat)
  | invalidAngle (angle : Int)
  | invalidRotation (rotation : Int)
  | invalidOperation (message : String)
  | validation (model : String) (fields : List String)
deriving DecidableEq

/-- `IndexError` of a Python list. -/
def found {α : Type} : Option α → Except PageError α
  | some a => .ok a
  | none => .error .indexOutOfRange

namespace PDFEngine

variable {κ β : Type} (P : Pikepdf κ β) (stored : Option β)

/-- Open what is stored, change the pages and save them. -/
def edit (save : β → List (PdfPage κ) → β)
    (change : List (PdfPage κ) → Except PageError (List (PdfPage κ))) : Except PageError β :=
  match stored with
  | none => .error .documentNotOpen
  | some bytes =>
    match P.unlock bytes none with
    | .error error => .error (.unopened error)
    | .ok () => (change (P.pages bytes)).map (save bytes)

/-- `position` starts at 0. -/
def addPage (position : Int) (width height : ℚ) : Except PageError β :=
  edit P stored P.save fun pdfPages =>
    .ok (Lockstep.insertAt position ⟨P.blank, ⟨0, 0, width, height⟩, none⟩ pdfPages)

def deletePage (pageNumber : Int) : Except PageError β :=
  edit P stored P.save fun pdfPages =>
    if pageNumber < 1 ∨ pdfPages.length < pageNumber then
      .error (.pageOutOfRange pageNumber pdfPages.length)
    else found (eraseAt (pageNumber - 1) pdfPages)

/-- The angle is absolute. -/
def rotatePage (pageNumber angle : Int) : Except PageError β :=
  match stored with
  | none => .error .documentNotOpen
  | some _ =>
    if angle ∉ [0, 90, 180, 270] then .error (.invalidAngle angle)
    else
      edit P stored P.save fun pdfPages =>
        if pageNumber < 1 ∨ pdfPages.length < pageNumber then
          .error (.pageOutOfRange pageNumber pdfPages.length)
        else
          found (modifyAt (pageNumber - 1) (fun page => { page with rotate := some angle }) pdfPages)

/-- The order starts at 0. -/
def reorderPages (newOrder : List Int) : Except PageError β :=
  edit P stored (fun _ => P.saveNew) fun pdfPages =>
    if (∀ i ∈ newOrder, 0 ≤ i ∧ i < pdfPages.length) ∧
        ∀ i ∈ List.range pdfPages.length, (i : Int) ∈ newOrder then
      found (select newOrder pdfPages)
    else .error (.invalidOrder newOrder pdfPages.length)

end PDFEngine

/-! ## The objects of a page -/

def notPositive (fields : List (String × ℚ)) : List String :=
  (fields.filter fun field => field.2 ≤ 0).map Prod.fst

/-- The page objects that the service builds. -/
def makePage (pageId : String) (pageNumber : Int) (width height : ℚ) (rotation : Int) :
    Except PageError PageObject :=
  let fields := notPositive [("width", width), ("height", height)]
  if fields ≠ [] then .error (.validation "Dimensions" fields)
  else if rotation ∉ [0, 90, 180, 270] then .error (.validation "Dimensions" [])
  else if pageNumber < 1 then .error (.validation "PageObject" ["page_number"])
  else
    .ok
      { pageId := pageId
        pageNumber := pageNumber
        dimensions := ⟨width, height, rotation⟩
        mediaBox := ⟨0, 0, width, height⟩
        cropBox := none
        elements := []
        preview := none }

/-- The pages with the numbers of their places. -/
def renumber (pages : List PageObject) : List PageObject :=
  pages.mapIdx fun i page => { page with pageNumber := i + 1 }

def PageObject.rotated (rotation : Int) (page : PageObject) : PageObject :=
  { page with dimensions := { page.dimensions with rotation := rotation } }

/-! ## Sessions -/

/-- `stored` are the bytes that the engine has under the id of the document. `origins` tells for
each page id that was generated the page of the PDF that it was generated for. -/
structure PdfSession (κ β : Type) where
  stored : Option β
  pdfBytes : β
  proxyBytes : β
  sceneGraph : DocumentObject PageObject
  history : HistoryState
  origins : List κ

structure Settings where
  maxUploadSizeBytes : Nat
  maxUploadSizeMb : Nat
  maxPagesPerDocument : Nat

inductive UploadError
  | tooLarge (maxUploadSizeMb : Nat)
  | encrypted
  | invalidPassword
  | corrupted
  | tooManyPages (maxPagesPerDocument : Nat)
  | page (error : PageError)
deriving DecidableEq

inductive PageCall
  | addPage (position : Int) (width height : ℚ)
  | deletePage (pageNumber : Int)
  | rotatePage (pageNumber angle : Int)
  | reorderPages (newOrder : List Int)

inductive PageAnswer
  | page (page : PageObject)
  | pageCount (count : Nat)
  | pages (pages : List PageObject)

/-- `validate_rotation` -/
def validateRotation (rotation : Int) : Except PageError Int :=
  if rotation ∈ [0, 90, 180, 270, -90, -180, -270] then .ok (rotation % 360)
  else .error (.invalidRotation rotation)

namespace PdfSession

section
variable {κ β : Type} (uuid : Nat ↪ String) (P : Pikepdf κ β)

/-- The page ids are generated in the order of the pages. -/
def makePages (pdfPages : List (PdfPage κ)) : Except PageError (List PageObject) :=
  pdfPages.zipIdx.mapM fun page =>
    makePage (uuid page.2) (page.2 + 1) page.1.width page.1.height page.1.rotation

/-- An empty password is none. -/
def upload (settings : Settings) (size : β → Nat) (now : Time) (documentId : String) (other : Json)
    (fileData : β) (password : Option (List Char)) : Except UploadError (PdfSession κ β) :=
  if settings.maxUploadSizeBytes < size fileData then .error (.tooLarge settings.maxUploadSizeMb)
  else
    match P.unlock fileData (password.filter (· ≠ [])) with
    | .error .password =>
      .error (if password.filter (· ≠ []) = none then .encrypted else .invalidPassword)
    | .error .pdf => .error .corrupted
    | .ok () =>
      if settings.maxPagesPerDocument < (P.pages fileData).length then
        .error (.tooManyPages settings.maxPagesPerDocument)
      else
        -- The dimensions are read without the password.
        match P.unlock fileData none with
        | .error error => .error (.page (.unopened error))
        | .ok () =>
          match makePages uuid (P.pages fileData) with
          | .error error => .error (.page error)
          | .ok pages =>
            .ok
              { stored := some fileData
                pdfBytes := fileData
                proxyBytes := fileData
                sceneGraph :=
                  { documentId := documentId
                    metadata := ⟨(P.pages fileData).length, other⟩
                    pages := pages
                    outlines := []
                    namedDestinations := []
                    embeddedFiles := []
                    layers := [] }
                history :=
                  { currentIndex := 0
                    history := [⟨0, "Document opened", now, false, false, [], []⟩]
                    maxHistorySize := 100 }
                origins := (P.pages fileData).map PdfPage.contents }

variable (σ : PdfSession κ β) (now : Time)

/-- The bytes of the engine are handed to the session and its proxy. -/
def propagate (bytes : β) : PdfSession κ β :=
  { σ with stored := some bytes, pdfBytes := bytes, proxyBytes := bytes }

def setPages (pages : List PageObject) : PdfSession κ β :=
  { σ with sceneGraph := { σ.sceneGraph with pages := pages } }

def setPageCount (pageCount : Nat) : PdfSession κ β :=
  { σ with
    sceneGraph :=
      { σ.sceneGraph with metadata := { σ.sceneGraph.metadata with pageCount := pageCount } } }

def pushHistory (action : String) (affectedPages : List Int) : PdfSession κ β :=
  { σ with history := σ.history.pushHistory now action [] affectedPages }

def addPage (position : Int) (width height : ℚ) : Except PageError PageAnswer × PdfSession κ β :=
  match PDFEngine.addPage P σ.stored (position - 1) width height with
  | .error error => (.error error, σ)
  | .ok bytes =>
    match makePage (uuid σ.origins.length) position width height 0 with
    | .error error => (.error error, σ.propagate bytes)
    | .ok newPage =>
      let place := slot σ.sceneGraph.pages.length (position - 1)
      let pages := renumber (Lockstep.insertAt (position - 1) newPage σ.sceneGraph.pages)
      (.ok (.page { newPage with pageNumber := place + 1 }),
        { (((σ.propagate bytes).setPages pages).setPageCount pages.length).pushHistory now
            s!"Added blank page at position {position}" [position] with
          origins := σ.origins ++ [P.blank] })

def deletePage (pageNumber : Int) : Except PageError PageAnswer × PdfSession κ β :=
  if σ.sceneGraph.metadata.pageCount ≤ 1 then
    (.error (.invalidOperation "Cannot delete the last page"), σ)
  else
    match PDFEngine.deletePage P σ.stored pageNumber with
    | .error error => (.error error, σ)
    | .ok bytes =>
      match eraseAt (pageNumber - 1) σ.sceneGraph.pages with
      | none => (.error .indexOutOfRange, σ.propagate bytes)
      | some rest =>
        let pages := renumber rest
        (.ok (.pageCount pages.length),
          (((σ.propagate bytes).setPages pages).setPageCount pages.length).pushHistory now
            s!"Deleted page {pageNumber}" [pageNumber])

def rotatePage (pageNumber angle : Int) : Except PageError PageAnswer × PdfSession κ β :=
  match validateRotation angle with
  | .error error => (.error error, σ)
  | .ok normalizedAngle =>
    match getAt (pageNumber - 1) σ.sceneGraph.pages with
    | none => (.error .indexOutOfRange, σ)
    | some page =>
      let absoluteRotation := (page.dimensions.rotation + normalizedAngle) % 360
      match PDFEngine.rotatePage P σ.stored pageNumber absoluteRotation with
      | .error error => (.error error, σ)
      | .ok bytes =>
        let turned := PageObject.rotated absoluteRotation
        let pages := (modifyAt (pageNumber - 1) turned σ.sceneGraph.pages).getD σ.sceneGraph.pages
        (.ok (.page (turned page)),
          ((σ.propagate bytes).setPages pages).pushHistory now
            s!"Rotated page {pageNumber} by {angle} degrees" [pageNumber])

def reorderPages (newOrder : List Int) : Except PageError PageAnswer × PdfSession κ β :=
  let pageCount := σ.sceneGraph.metadata.pageCount
  if newOrder.mergeSort ≠ (List.range pageCount).map fun (i : Nat) => (i + 1 : Int) then
    (.error (.invalidOperation s!"Invalid page order. Expected pages 1-{pageCount}"), σ)
  else
    match PDFEngine.reorderPages P σ.stored (newOrder.map (· - 1)) with
    | .error error => (.error error, σ)
    | .ok bytes =>
      match select (newOrder.map (· - 1)) σ.sceneGraph.pages with
      | none => (.error .indexOutOfRange, σ.propagate bytes)
      | some chosen =>
        let pages := renumber chosen
        (.ok (.pages pages),
          ((σ.propagate bytes).setPages pages).pushHistory now "Reordered pages"
            ((List.range pageCount).map fun (i : Nat) => (i + 1 : Int)))

def serve : PageCall → Except PageError PageAnswer × PdfSession κ β
  | .addPage position width height => σ.addPage uuid P now position width height
  | .deletePage pageNumber => σ.deletePage P now pageNumber
  | .rotatePage pageNumber angle => σ.rotatePage P now pageNumber angle
  | .reorderPages newOrder => σ.reorderPages P now newOrder

def serveAll (calls : List (Time × PageCall)) : PdfSession κ β :=
  calls.foldl (fun σ call => (σ.serve uuid P call.1 call.2).2) σ

end

end PdfSession

/-! ## Pages that belong together -/

/-- A page object is that of a page of the PDF: it was built for it, and tells its size and its
rotation. -/
structure Describes {κ : Type} (uuid : Nat ↪ String) (origins : List κ) (page : PageObject)
    (pdfPage : PdfPage κ) : Prop where
  origin : ∃ k : Nat, page.pageId = uuid k ∧ (origins[k]? : Option κ) = some pdfPage.contents
  width : page.dimensions.width = pdfPage.width
  height : page.dimensions.height = pdfPage.height
  rotation : page.dimensions.rotation = pdfPage.rotation

/-- Both sides have the same pages in the same order, and all copies of the bytes are the same. -/
structure Aligned {κ β : Type} (uuid : Nat ↪ String) (P : Pikepdf κ β) (σ : PdfSession κ β) :
    Prop where
  stored : σ.stored = some σ.pdfBytes
  proxy : σ.proxyBytes = σ.pdfBytes
  opens : P.unlock σ.pdfBytes none = .ok ()
  length : σ.sceneGraph.pages.length = (P.pages σ.pdfBytes).length
  count : σ.sceneGraph.metadata.pageCount = σ.sceneGraph.pages.length
  numbers : ∀ (i : Nat) page, σ.sceneGraph.pages[i]? = some page → page.pageNumber = i + 1
  describes : List.Forall₂ (Describes uuid σ.origins) σ.sceneGraph.pages (P.pages σ.pdfBytes)

/-- The arguments with which a page can be added. -/
def PageCall.Valid : PageCall → Prop
  | .addPage position width height => 1 ≤ position ∧ 0 < width ∧ 0 < height
  | _ => True

section
variable {κ β : Type} {uuid : Nat ↪ String} {P : Pikepdf κ β} {σ : PdfSession κ β}

theorem makePage_eq_ok_iff {pageId : String} {pageNumber : Int} {width height : ℚ} {rotation : Int}
    {page : PageObject} :
    makePage pageId pageNumber width height rotation = .ok page ↔
      (0 < width ∧ 0 < height ∧ rotation ∈ [0, 90, 180, 270] ∧ 1 ≤ pageNumber) ∧
        page =
          { pageId := pageId
            pageNumber := pageNumber
            dimensions := ⟨width, height, rotation⟩
            mediaBox := ⟨0, 0, width, height⟩
            cropBox := none
            elements := []
            preview := none } := by
  have positive : notPositive [("width", width), ("height", height)] = [] ↔
      0 < width ∧ 0 < height := by
    simp [notPositive]
  simp only [makePage]
  constructor
  · intro made
    split at made
    · cases made
    · rename_i fields
      split at made
      · cases made
      · rename_i known
        split at made
        · cases made
        · rename_i number
          cases made
          obtain ⟨wide, high⟩ := positive.mp (not_not.mp fields)
          exact ⟨⟨wide, high, not_not.mp known, not_lt.mp number⟩, rfl⟩
  · rintro ⟨⟨wide, high, known, number⟩, rfl⟩
    have fields := positive.mpr ⟨wide, high⟩
    rw [if_neg (not_not.mpr fields), if_neg (not_not.mpr known), if_neg (not_lt.mpr number)]

/-- What the engine answers of a file that opens. -/
theorem PDFEngine.edit_eq {bytes : β} (opens : P.unlock bytes none = .ok ())
    (save : β → List (PdfPage κ) → β)
    (change : List (PdfPage κ) → Except PageError (List (PdfPage κ))) :
    PDFEngine.edit P (some bytes) save change = (change (P.pages bytes)).map (save bytes) := by
  simp only [edit, opens]

theorem renumber_number {pages : List PageObject} {i : Nat} {page : PageObject}
    (here : (renumber pages)[i]? = some page) : page.pageNumber = i + 1 := by
  rw [renumber, List.getElem?_mapIdx, Option.map_eq_some_iff] at here
  obtain ⟨old, -, rfl⟩ := here
  rfl

theorem renumber_describes {origins : List κ} {pages : List PageObject}
    {pdfPages : List (PdfPage κ)}
    (describes : List.Forall₂ (Describes uuid origins) pages pdfPages) :
    List.Forall₂ (Describes uuid origins) (renumber pages) pdfPages :=
  forall₂_mapIdx describes fun _ _ _ same => ⟨same.origin, same.width, same.height, same.rotation⟩

/-- The engine answers bytes that open, with the pages as they have been changed. -/
theorem PDFEngine.edit_eq_ok {save : β → List (PdfPage κ) → β}
    {change : List (PdfPage κ) → Except PageError (List (PdfPage κ))}
    (saves : save = P.save ∨ save = fun _ => P.saveNew) {stored : Option β} {bytes : β}
    (edited : PDFEngine.edit P stored save change = .ok bytes) :
    P.unlock bytes none = .ok () ∧
      ∃ old, stored = some old ∧ change (P.pages old) = .ok (P.pages bytes) := by
  unfold edit at edited
  split at edited
  · cases edited
  · rename_i old
    split at edited
    · cases edited
    · obtain ⟨pdfPages, changed, rfl⟩ := map_eq_ok_iff.mp edited
      obtain rfl | rfl := saves
      · exact ⟨P.unlock_save _ _, old, rfl, by rw [changed, P.pages_save]⟩
      · exact ⟨P.unlock_saveNew _, old, rfl, by rw [changed, P.pages_saveNew]⟩

/-- What is found in one of two lists in lockstep, is in the other as well. -/
theorem found_of_rel {α α' : Type} {R : α → α' → Prop} {x : Option α} {y : Option α'} {b : α'}
    (related : Option.Rel R x y) (present : found y = .ok b) : ∃ a, x = some a ∧ R a b := by
  cases related with
  | none => cases present
  | some same =>
    cases present
    exact ⟨_, rfl, same⟩

theorem Describes.extend {origins : List κ} {page : PageObject} {pdfPage : PdfPage κ}
    (describes : Describes uuid origins page pdfPage) (more : List κ) :
    Describes uuid (origins ++ more) page pdfPage := by
  obtain ⟨k, id, here⟩ := describes.origin
  have bound := (List.getElem?_eq_some_iff.mp here).1
  refine ⟨⟨k, id, ?_⟩, describes.width, describes.height, describes.rotation⟩
  rw [List.getElem?_append_left bound, here]

namespace PdfSession

/-- What the four operations do to a session in the end. -/
theorem aligned_of {bytes : β} {pages : List PageObject} {origins : List κ} {pageCount : Nat}
    {history : HistoryState} {outer : DocumentObject PageObject}
    (opens : P.unlock bytes none = .ok ())
    (describes : List.Forall₂ (Describes uuid origins) pages (P.pages bytes))
    (numbers : ∀ (i : Nat) page, pages[i]? = some page → page.pageNumber = i + 1)
    (count : pageCount = pages.length) :
    Aligned uuid P
      { stored := some bytes
        pdfBytes := bytes
        proxyBytes := bytes
        sceneGraph :=
          { outer with pages := pages, metadata := { outer.metadata with pageCount := pageCount } }
        history := history
        origins := origins } where
  stored := rfl
  proxy := rfl
  opens := opens
  length := describes.length_eq
  count := count
  numbers := numbers
  describes := describes

/-- After a call both sides are aligned, and a call that raised has changed nothing. -/
def Sound (uuid : Nat ↪ String) (P : Pikepdf κ β) (σ : PdfSession κ β) (now : Time)
    (call : PageCall) : Prop :=
  Aligned uuid P (σ.serve uuid P now call).2 ∧
    ∀ error, (σ.serve uuid P now call).1 = .error error → (σ.serve uuid P now call).2 = σ

theorem addPage_sound (aligned : Aligned uuid P σ) (now : Time) {position : Int} {width height : ℚ}
    (valid : (PageCall.addPage position width height).Valid) :
    σ.Sound uuid P now (.addPage position width height) := by
  obtain ⟨low, wide, high⟩ := valid
  simp only [Sound, serve, addPage]
  split
  · exact ⟨aligned, fun _ _ => rfl⟩
  · rename_i bytes edited
    obtain ⟨opens, old, stored, inserted⟩ := PDFEngine.edit_eq_ok (.inl rfl) edited
    cases aligned.stored.symm.trans stored
    split
    · rename_i error failed
      rw [makePage_eq_ok_iff.mpr ⟨⟨wide, high, by decide, low⟩, rfl⟩] at failed
      cases failed
    · rename_i newPage made
      obtain ⟨-, rfl⟩ := makePage_eq_ok_iff.mp made
      refine ⟨?_, fun _ raised => by cases raised⟩
      apply aligned_of opens _ (fun i page => renumber_number) rfl
      rw [← Except.ok.inj inserted]
      apply renumber_describes
      apply forall₂_insertAt (aligned.describes.imp fun _ _ describes => describes.extend [P.blank])
      refine ⟨⟨σ.origins.length, rfl, List.getElem?_concat_length⟩, ?_, ?_, rfl⟩
      · exact (sub_zero width).symm
      · exact (sub_zero height).symm

theorem deletePage_sound (aligned : Aligned uuid P σ) (now : Time) (pageNumber : Int) :
    σ.Sound uuid P now (.deletePage pageNumber) := by
  simp only [Sound, serve, deletePage]
  split
  · exact ⟨aligned, fun _ _ => rfl⟩
  · split
    · exact ⟨aligned, fun _ _ => rfl⟩
    · rename_i bytes edited
      obtain ⟨opens, old, stored, deleted⟩ := PDFEngine.edit_eq_ok (.inl rfl) edited
      cases aligned.stored.symm.trans stored
      split at deleted
      · cases deleted
      · obtain ⟨rest, removed, describes⟩ :=
          found_of_rel (rel_eraseAt aligned.describes (pageNumber - 1)) deleted
        rw [removed]
        refine ⟨?_, fun _ raised => by cases raised⟩
        exact aligned_of opens (renumber_describes describes) (fun i page => renumber_number) rfl

theorem PageObject.rotated_describes {origins : List κ} {page : PageObject} {pdfPage : PdfPage κ}
    (describes : Describes uuid origins page pdfPage) (rotation : Int) :
    Describes uuid origins (page.rotated rotation) { pdfPage with rotate := some rotation } :=
  ⟨describes.origin, describes.width, describes.height, rfl⟩

theorem numbers_modifyAt {pages pages' : List PageObject} {i : Int} {rotation : Int}
    (numbers : ∀ (k : Nat) page, pages[k]? = some page → page.pageNumber = k + 1)
    (modified : modifyAt i (PageObject.rotated rotation) pages = some pages') :
    ∀ (k : Nat) page, pages'[k]? = some page → page.pageNumber = k + 1 := by
  obtain ⟨m, -, rfl⟩ := Option.map_eq_some_iff.mp modified
  intro k page here
  rw [List.getElem?_modify] at here
  obtain ⟨old, there, rfl⟩ := Option.map_eq_some_iff.mp here
  have number := numbers k old there
  split <;> exact number

theorem rotatePage_sound (aligned : Aligned uuid P σ) (now : Time) (pageNumber angle : Int) :
    σ.Sound uuid P now (.rotatePage pageNumber angle) := by
  simp only [Sound, serve, rotatePage]
  split
  · exact ⟨aligned, fun _ _ => rfl⟩
  · rename_i normalizedAngle valid
    split
    · exact ⟨aligned, fun _ _ => rfl⟩
    · rename_i page here
      split
      · exact ⟨aligned, fun _ _ => rfl⟩
      · rename_i bytes edited
        unfold PDFEngine.rotatePage at edited
        rw [aligned.stored] at edited
        simp only at edited
        split at edited
        · cases edited
        · obtain ⟨opens, old, stored, rotated⟩ := PDFEngine.edit_eq_ok (.inl rfl) edited
          cases stored
          split at rotated
          · cases rotated
          · obtain ⟨turned, modified, describes⟩ :=
              found_of_rel (rel_modifyAt aligned.describes
                (fun _ _ describes => PageObject.rotated_describes describes _) (pageNumber - 1)) rotated
            rw [modified]
            refine ⟨?_, fun _ raised => by cases raised⟩
            exact aligned_of opens describes (numbers_modifyAt aligned.numbers modified)
              (aligned.count.trans (length_modifyAt modified).symm)

theorem reorderPages_sound (aligned : Aligned uuid P σ) (now : Time) (newOrder : List Int) :
    σ.Sound uuid P now (.reorderPages newOrder) := by
  simp only [Sound, serve, reorderPages]
  split
  · exact ⟨aligned, fun _ _ => rfl⟩
  · rename_i sorted
    have length : newOrder.length = σ.sceneGraph.metadata.pageCount := by
      rw [← List.length_mergeSort, not_not.mp sorted, List.length_map, List.length_range]
    split
    · exact ⟨aligned, fun _ _ => rfl⟩
    · rename_i bytes edited
      obtain ⟨opens, old, stored, reordered⟩ := PDFEngine.edit_eq_ok (.inr rfl) edited
      cases aligned.stored.symm.trans stored
      split at reordered
      · obtain ⟨chosen, selected, describes⟩ :=
          found_of_rel (rel_select aligned.describes (newOrder.map (· - 1))) reordered
        rw [selected]
        refine ⟨?_, fun _ raised => by cases raised⟩
        apply aligned_of opens (renumber_describes describes) (fun i page => renumber_number)
        rw [renumber, List.length_mapIdx, length_select selected, List.length_map, length]
        rfl
      · cases reordered

theorem serve_sound (aligned : Aligned uuid P σ) (now : Time) {call : PageCall}
    (valid : call.Valid) : σ.Sound uuid P now call := by
  cases call with
  | addPage position width height => exact addPage_sound aligned now valid
  | deletePage pageNumber => exact deletePage_sound aligned now pageNumber
  | rotatePage pageNumber angle => exact rotatePage_sound aligned now pageNumber angle
  | reorderPages newOrder => exact reorderPages_sound aligned now newOrder

/-- The page that cannot be described is in the bytes already. -/
theorem addPage_drifts (aligned : Aligned uuid P σ) (now : Time) {position : Int}
    {width height : ℚ} (invalid : ¬(PageCall.addPage position width height).Valid) :
    ¬Aligned uuid P (σ.serve uuid P now (.addPage position width height)).2 := by
  have inserted : PDFEngine.addPage P σ.stored (position - 1) width height =
      .ok (P.save σ.pdfBytes (Lockstep.insertAt (position - 1)
        ⟨P.blank, ⟨0, 0, width, height⟩, none⟩ (P.pages σ.pdfBytes))) := by
    rw [PDFEngine.addPage, aligned.stored, PDFEngine.edit_eq aligned.opens]
    rfl
  simp only [serve, addPage, inserted]
  split
  · intro drifted
    have length := drifted.length
    simp only [propagate, P.pages_save, length_insertAt, aligned.length] at length
    omega
  · rename_i newPage made
    obtain ⟨⟨wide, high, -, low⟩, -⟩ := makePage_eq_ok_iff.mp made
    exact absurd ⟨low, wide, high⟩ invalid

theorem serve_sound_iff (aligned : Aligned uuid P σ) (now : Time) {call : PageCall} :
    σ.Sound uuid P now call ↔ call.Valid := by
  constructor
  · intro sound
    by_contra invalid
    cases call with
    | addPage position width height => exact addPage_drifts aligned now invalid sound.1
    | _ => exact invalid trivial
  · exact serve_sound aligned now

/-! ## Opened documents and runs -/

theorem makePages_describes {pdfPages : List (PdfPage κ)} {pages : List PageObject}
    (made : makePages uuid pdfPages = .ok pages) :
    List.Forall₂ (Describes uuid (pdfPages.map PdfPage.contents)) pages pdfPages := by
  have built := (List.forall₂_and_left _ _).mpr ⟨fun _ mem => mem, mapM_eq_ok_iff.mp made⟩
  have each : List.Forall₂ (fun pdfPage page =>
      Describes uuid (pdfPages.map PdfPage.contents) page pdfPage.1) pdfPages.zipIdx pages := by
    apply built.imp
    rintro ⟨pdfPage, i⟩ page ⟨mem, built⟩
    obtain ⟨-, rfl⟩ := makePage_eq_ok_iff.mp built
    have here := List.mk_mem_zipIdx_iff_getElem?.mp mem
    exact ⟨⟨i, rfl, by rw [List.getElem?_map, here, Option.map_some]⟩, rfl, rfl, rfl⟩
  have unindexed := List.forall₂_map_right_iff.mpr each.flip
  rwa [List.zipIdx_map_fst] at unindexed

theorem makePages_numbers {pdfPages : List (PdfPage κ)} {pages : List PageObject}
    (made : makePages uuid pdfPages = .ok pages) (i : Nat) (page : PageObject)
    (here : pages[i]? = some page) : page.pageNumber = i + 1 := by
  have related := rel_getElem? (mapM_eq_ok_iff.mp made) i
  rw [here, List.getElem?_zipIdx] at related
  generalize pdfPages[i]? = pdfPage at related
  cases pdfPage with
  | none => cases related
  | some pdfPage =>
    cases related with
    | some built =>
      obtain ⟨-, rfl⟩ := makePage_eq_ok_iff.mp built
      simp

theorem upload_aligned {settings : Settings} {size : β → Nat} {now : Time} {documentId : String}
    {other : Json} {fileData : β} {password : Option (List Char)}
    (uploaded : upload uuid P settings size now documentId other fileData password = .ok σ) :
    Aligned uuid P σ := by
  unfold upload at uploaded
  split at uploaded
  · cases uploaded
  · split at uploaded
    · cases uploaded
    · cases uploaded
    · split at uploaded
      · cases uploaded
      · split at uploaded
        · cases uploaded
        · rename_i opens
          split at uploaded
          · cases uploaded
          · rename_i pages made
            cases uploaded
            have describes := makePages_describes made
            exact ⟨rfl, rfl, opens, describes.length_eq, describes.length_eq.symm,
              makePages_numbers made, describes⟩

/-- Every call of a run leaves both sides aligned just when no page is added with arguments that
its object cannot have. -/
theorem calls_sound_iff {settings : Settings} {size : β → Nat} {now : Time} {documentId : String}
    {other : Json} {fileData : β} {password : Option (List Char)}
    (uploaded : upload uuid P settings size now documentId other fileData password = .ok σ)
    (calls : List (Time × PageCall)) :
    (∀ earlier call later, calls = earlier ++ call :: later →
      (σ.serveAll uuid P earlier).Sound uuid P call.1 call.2) ↔ ∀ call ∈ calls, call.2.Valid := by
  have aligned := upload_aligned uploaded
  clear uploaded
  induction calls generalizing σ with
  | nil => simp
  | cons call calls ih =>
    rw [Runs.forall_split_cons, List.forall_mem_cons]
    constructor
    · rintro ⟨first, rest⟩
      exact ⟨(serve_sound_iff aligned call.1).mp first, (ih first.1).mp rest⟩
    · rintro ⟨valid, others⟩
      have first := serve_sound aligned call.1 valid
      exact ⟨first, (ih first.1).mpr others⟩

end PdfSession

end

/-! ## A file of one page -/

/-- Files that are the lists of their pages. -/
def plainPdf : Pikepdf Unit (List (PdfPage Unit)) where
  unlock _ _ := .ok ()
  pages file := file
  save _ pdfPages := pdfPages
  saveNew pdfPages := pdfPages
  blank := ()
  unlock_save _ _ := rfl
  pages_save _ _ := rfl
  unlock_saveNew _ := rfl
  pages_saveNew _ := rfl

def plainId : Nat ↪ String where
  toFun n := String.ofList (List.replicate n '0')
  inj' m n same := by simpa using String.ofList_injective same

def letterFile : List (PdfPage Unit) := [⟨(), ⟨0, 0, 612, 792⟩, none⟩]

namespace PdfSession

def letterSession : PdfSession Unit (List (PdfPage Unit)) where
  stored := some letterFile
  pdfBytes := letterFile
  proxyBytes := letterFile
  sceneGraph :=
    { documentId := "d1"
      metadata := ⟨1, .null⟩
      pages :=
        [{ pageId := plainId 0
           pageNumber := 1
           dimensions := ⟨612, 792, 0⟩
           mediaBox := ⟨0, 0, 612, 792⟩
           cropBox := none
           elements := []
           preview := none }]
      outlines := []
      namedDestinations := []
      embeddedFiles := []
      layers := [] }
  history :=
    { currentIndex := 0
      history := [⟨0, "Document opened", 0, false, false, [], []⟩]
      maxHistorySize := 100 }
  origins := [()]

theorem upload_letterFile :
    upload plainId plainPdf ⟨1000, 1, 10⟩ List.length 0 "d1" .null letterFile none =
      .ok letterSession := by
  have made : makePages plainId letterFile = .ok letterSession.sceneGraph.pages := by
    apply mapM_eq_ok_iff.mpr
    refine .cons (makePage_eq_ok_iff.mpr ⟨?_, ?_⟩) .nil
    · norm_num [PdfPage.width, PdfPage.height, PdfPage.rotation]
    · norm_num [PdfPage.width, PdfPage.height, PdfPage.rotation]
  have unlocked : ∀ password, plainPdf.unlock letterFile password = .ok () := fun _ => rfl
  have same : plainPdf.pages letterFile = letterFile := rfl
  simp only [upload, unlocked, same, made]
  rfl

theorem calls_sound_iff_letterFile :
    upload plainId plainPdf ⟨1000, 1, 10⟩ List.length 0 "d1" .null letterFile none =
      .ok letterSession ∧
    ((∀ earlier call later,
        [(1, PageCall.rotatePage 1 90), (2, PageCall.addPage 2 100 100)] =
          earlier ++ call :: later →
        (letterSession.serveAll plainId plainPdf earlier).Sound plainId plainPdf call.1 call.2) ↔
      ∀ call ∈ [((1 : Time), PageCall.rotatePage 1 90), (2, PageCall.addPage 2 100 100)],
        call.2.Valid) :=
  ⟨upload_letterFile, calls_sound_iff upload_letterFile _⟩

/-- At position 0 the engine adds a page, and there is no page object for it. -/
theorem addPage_at_zero_drifts :
    ¬∀ (κ β : Type) (uuid : Nat ↪ String) (P : Pikepdf κ β) (settings : Settings) (size : β → Nat)
      (now : Time) (documentId : String) (other : Json) (fileData : β)
      (password : Option (List Char)) (σ : PdfSession κ β),
      upload uuid P settings size now documentId other fileData password = .ok σ →
      ∀ calls earlier call later, calls = earlier ++ call :: later →
        (σ.serveAll uuid P earlier).Sound uuid P call.1 call.2 := by
  intro claim
  have sound := claim _ _ _ _ _ _ _ _ _ _ _ _ upload_letterFile [(1, .addPage 0 612 792)] []
    (1, .addPage 0 612 792) [] rfl
  have invalid : ¬(PageCall.addPage 0 612 792).Valid := fun valid => absurd valid.1 (by decide)
  exact addPage_drifts (upload_aligned upload_letterFile) 1 invalid sound.1

end PdfSession

end GigaPdf.Sessions
