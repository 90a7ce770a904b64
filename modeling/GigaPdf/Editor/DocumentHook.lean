import GigaPdf.Editor.BackendMerge
import Mathlib.Data.List.InsertIdx

/-!
# The document in the editor

The scene graph that `useDocument` of `apps/web/src/hooks/use-document.ts` keeps: the pages, their
numbers and the index of the page that is shown. The index is corrected by hand wherever pages move,
and the user expects to stay on the page, not on the index.
-/

namespace GigaPdf.DocumentHook

open BackendMerge

structure PageObject where
  pageId : String
  pageNumber : Nat
  elements : List Element
deriving DecidableEq

structure DocumentObject where
  pages : List PageObject
  /-- Of the metadata. -/
  pageCount : Nat
deriving DecidableEq

structure UseDocument where
  document : Option DocumentObject
  currentPageIndex : Nat
  isDirty : Bool
deriving DecidableEq

def renumber (pages : List PageObject) : List PageObject :=
  pages.mapIdx fun index page => { page with pageNumber := index + 1 }

namespace UseDocument

def setPages (h : UseDocument) (pages : List PageObject) : UseDocument :=
  { h with document := some ⟨pages, pages.length⟩ }

def goToPage (h : UseDocument) (pageIndex : Int) : UseDocument :=
  match h.document with
  | none => h
  | some document =>
    if 0 ≤ pageIndex ∧ pageIndex < document.pages.length then
      { h with currentPageIndex := pageIndex.toNat }
    else h

def addPage (h : UseDocument) (pageId : String) : UseDocument :=
  match h.document with
  | none => h
  | some document =>
    let updatedPages := document.pages ++ [⟨pageId, document.pages.length + 1, []⟩]
    { h.setPages updatedPages with
      isDirty := true, currentPageIndex := updatedPages.length - 1 }

def deletePage (h : UseDocument) (pageIndex : Int) : UseDocument :=
  match h.document with
  | none => h
  | some document =>
    if document.pages.length ≤ 1 then h
    else if pageIndex < 0 ∨ document.pages.length ≤ pageIndex then h
    else
      let updatedPages := renumber (document.pages.eraseIdx pageIndex.toNat)
      { h.setPages updatedPages with
        isDirty := true
        currentPageIndex :=
          if updatedPages.length ≤ h.currentPageIndex then updatedPages.length - 1
          else if pageIndex < h.currentPageIndex then h.currentPageIndex - 1
          else h.currentPageIndex }

def reorderPages (h : UseDocument) (fromIndex toIndex : Int) : UseDocument :=
  match h.document with
  | none => h
  | some document =>
    if fromIndex < 0 ∨ document.pages.length ≤ fromIndex ∨ toIndex < 0 ∨
        document.pages.length ≤ toIndex then h
    else
      match document.pages[fromIndex.toNat]? with
      | none => h
      | some movedPage =>
        let updatedPages :=
          (document.pages.eraseIdx fromIndex.toNat).insertIdx toIndex.toNat movedPage
        { h with
          document := some { document with pages := renumber updatedPages }
          isDirty := true
          currentPageIndex :=
            if h.currentPageIndex = fromIndex then toIndex.toNat
            else if fromIndex < h.currentPageIndex ∧ h.currentPageIndex ≤ toIndex then
              h.currentPageIndex - 1
            else if h.currentPageIndex < fromIndex ∧ toIndex ≤ h.currentPageIndex then
              h.currentPageIndex + 1
            else h.currentPageIndex }

/-- The copy and its elements have new ids. -/
def duplicatePage (h : UseDocument) (pageIndex : Int) (pageId : String)
    (elementIds : Nat → String) : UseDocument :=
  match h.document with
  | none => h
  | some document =>
    if pageIndex < 0 ∨ document.pages.length ≤ pageIndex then h
    else
      match document.pages[pageIndex.toNat]? with
      | none => h
      | some pageToDuplicate =>
        let duplicatedPage : PageObject :=
          ⟨pageId, pageIndex.toNat + 2, pageToDuplicate.elements.mapIdx fun i element =>
            { element with elementId := elementIds i }⟩
        let updatedPages := renumber (document.pages.take (pageIndex.toNat + 1) ++
          duplicatedPage :: document.pages.drop (pageIndex.toNat + 1))
        { h.setPages updatedPages with
          isDirty := true, currentPageIndex := pageIndex.toNat + 1 }

/-- Changes the elements of each page, and nothing else. -/
def changePages (h : UseDocument) (change : Nat → List Element → List Element) : UseDocument :=
  { h with
    document := h.document.map fun document =>
      { document with
        pages := document.pages.mapIdx fun i page =>
          { page with elements := change i page.elements } } }

def addElementToPage (h : UseDocument) (pageIndex : Int) (element : Element) : UseDocument :=
  h.changePages fun i elements => if (i : Int) = pageIndex then elements ++ [element] else elements

/-- The first element of the id on each page. -/
def updateElementInPage (h : UseDocument) (elementId : String) (updates : Element → Element) :
    UseDocument :=
  h.changePages fun _ elements =>
    elements.modify (elements.findIdx fun e => e.elementId = elementId) updates

def removeElementFromPage (h : UseDocument) (elementId : String) : UseDocument :=
  h.changePages fun _ elements => elements.filter fun e => e.elementId ≠ elementId

/-- The index stays as it is. -/
def replacePages (h : UseDocument) (newPages : List PageObject) : UseDocument :=
  match h.document with
  | none => h
  | some _ => h.setPages newPages

end UseDocument

inductive Op
  | goToPage (pageIndex : Int)
  | addPage (pageId : String)
  | deletePage (pageIndex : Int)
  | reorderPages (fromIndex toIndex : Int)
  | duplicatePage (pageIndex : Int) (pageId : String) (elementIds : Nat → String)
  | addElementToPage (pageIndex : Int) (element : Element)
  | updateElementInPage (elementId : String) (updates : Element → Element)
  | removeElementFromPage (elementId : String)
  | replacePages (newPages : List PageObject)

/-- An operation that is called on what is rendered. -/
def step (h : UseDocument) : Op → UseDocument
  | .goToPage pageIndex => h.goToPage pageIndex
  | .addPage pageId => h.addPage pageId
  | .deletePage pageIndex => h.deletePage pageIndex
  | .reorderPages fromIndex toIndex => h.reorderPages fromIndex toIndex
  | .duplicatePage pageIndex pageId elementIds => h.duplicatePage pageIndex pageId elementIds
  | .addElementToPage pageIndex element => h.addElementToPage pageIndex element
  | .updateElementInPage elementId updates => h.updateElementInPage elementId updates
  | .removeElementFromPage elementId => h.removeElementFromPage elementId
  | .replacePages newPages => h.replacePages newPages

def run (h : UseDocument) (ops : List Op) : UseDocument := ops.foldl step h

/-- What the user sees: the pages, and one of them. -/
structure Book where
  ids : List String
  current : String
deriving DecidableEq

namespace Book

/-- Another page is shown only when the user goes there, adds it, or deletes the one that is
shown. -/
def step (b : Book) : Op → Book
  | .goToPage pageIndex =>
    match b.ids[pageIndex.toNat]? with
    | some id => if 0 ≤ pageIndex then { b with current := id } else b
    | none => b
  | .addPage pageId => ⟨b.ids ++ [pageId], pageId⟩
  | .deletePage pageIndex =>
    match b.ids[pageIndex.toNat]? with
    | some id =>
      if 0 ≤ pageIndex ∧ 1 < b.ids.length then
        let ids := b.ids.erase id
        -- the next page, or the last
        let next := ids[min pageIndex.toNat (ids.length - 1)]?.getD id
        ⟨ids, if b.current = id then next else b.current⟩
      else b
    | none => b
  | .reorderPages fromIndex toIndex =>
    match b.ids[fromIndex.toNat]? with
    | some id =>
      if 0 ≤ fromIndex ∧ 0 ≤ toIndex ∧ toIndex < b.ids.length then
        { b with ids := (b.ids.erase id).insertIdx toIndex.toNat id }
      else b
    | none => b
  | .duplicatePage pageIndex pageId _ =>
    if 0 ≤ pageIndex ∧ pageIndex < b.ids.length then
      ⟨b.ids.take (pageIndex.toNat + 1) ++ pageId :: b.ids.drop (pageIndex.toNat + 1), pageId⟩
    else b
  | .replacePages newPages =>
    let ids := newPages.map PageObject.pageId
    ⟨ids, ids[b.ids.idxOf b.current]?.getD b.current⟩
  | .addElementToPage _ _ => b
  | .updateElementInPage _ _ => b
  | .removeElementFromPage _ => b

def run (b : Book) (ops : List Op) : Book := ops.foldl step b

/-- New pages have new ids, and where all pages are replaced the one that is shown has a
successor. -/
def Admits (b : Book) : Op → Prop
  | .addPage pageId => pageId ∉ b.ids
  | .duplicatePage _ pageId _ => pageId ∉ b.ids
  | .replacePages newPages =>
    newPages.map PageObject.pageNumber = (List.range newPages.length).map (· + 1) ∧
      (newPages.map PageObject.pageId).Nodup ∧ b.ids.idxOf b.current < newPages.length
  | _ => True

def AdmitsAll : Book → List Op → Prop
  | _, [] => True
  | b, op :: ops => b.Admits op ∧ AdmitsAll (b.step op) ops

end Book

/-- The editor shows a book: its pages are numbered and counted, and the index points at the
page. -/
structure Showing (document : DocumentObject) (currentPageIndex : Nat) (b : Book) : Prop where
  numbered : document.pages.map PageObject.pageNumber =
    (List.range document.pages.length).map (· + 1)
  counted : document.pageCount = document.pages.length
  ids : document.pages.map PageObject.pageId = b.ids
  distinct : b.ids.Nodup
  current : b.ids[currentPageIndex]? = some b.current

def Shows (h : UseDocument) (b : Book) : Prop :=
  ∃ document, h.document = some document ∧ Showing document h.currentPageIndex b

theorem numbered_renumber (pages : List PageObject) :
    (renumber pages).map PageObject.pageNumber =
      (List.range (renumber pages).length).map (· + 1) := by
  apply List.ext_getElem <;> simp [renumber]

theorem ids_renumber (pages : List PageObject) :
    (renumber pages).map PageObject.pageId = pages.map PageObject.pageId := by
  apply List.ext_getElem <;> simp [renumber]

theorem length_renumber (pages : List PageObject) : (renumber pages).length = pages.length :=
  List.length_mapIdx

section
variable {ids : List String} {id current : String} {i j k : Nat}

theorem erase_eq_eraseIdx (distinct : ids.Nodup) (found : ids[i]? = some id) :
    ids.erase id = ids.eraseIdx i := by
  obtain ⟨inside, same⟩ := List.getElem?_eq_some_iff.mp found
  subst same
  exact List.erase_eq_eraseIdx_of_idxOf (distinct.idxOf_getElem i inside)

/-- A page that stays is found one place before, if the page that goes stands before it. -/
theorem getElem?_eraseIdx_other (shown : ids[j]? = some current) (other : i ≠ j) :
    (ids.eraseIdx i)[if i < j then j - 1 else j]? = some current := by
  rw [List.getElem?_eraseIdx, ← shown]
  split <;> split <;> first | omega | rfl | (congr 1; omega)

theorem index_inj (distinct : ids.Nodup) (found : ids[i]? = some id) (again : ids[j]? = some id) :
    i = j := by
  obtain ⟨inside, rfl⟩ := List.getElem?_eq_some_iff.mp found
  obtain ⟨inside', same⟩ := List.getElem?_eq_some_iff.mp again
  exact (distinct.getElem_inj_iff.mp same).symm

/-- The page that is shown is found where the editor looks for it after a move. -/
theorem getElem?_moved (found : ids[i]? = some id) (shown : ids[j]? = some current)
    (inside : k < ids.length) :
    ((ids.eraseIdx i).insertIdx k id)[if j = i then k else if i < j ∧ j ≤ k then j - 1
      else if j < i ∧ k ≤ j then j + 1 else j]? = some current := by
  obtain ⟨inside_i, same_i⟩ := List.getElem?_eq_some_iff.mp found
  have length : (ids.eraseIdx i).length = ids.length - 1 := List.length_eraseIdx_of_lt inside_i
  by_cases same : j = i
  · subst same
    rw [if_pos rfl, List.getElem?_insertIdx_self, if_pos (by omega), ← found, shown]
  · rw [if_neg same]
    have stays := getElem?_eraseIdx_other shown (Ne.symm same)
    by_cases up : i < j ∧ j ≤ k
    · rw [if_pos up, List.getElem?_insertIdx_of_lt (by omega)]
      rwa [if_pos up.1] at stays
    · rw [if_neg up]
      by_cases down : j < i ∧ k ≤ j
      · rw [if_pos down, List.getElem?_insertIdx_of_gt (by omega)]
        rwa [if_neg (by omega)] at stays
      · rw [if_neg down]
        by_cases before : i < j
        · rw [List.getElem?_insertIdx_of_gt (by omega)]
          rwa [if_pos before] at stays
        · rw [List.getElem?_insertIdx_of_lt (by omega)]
          rwa [if_neg before] at stays

/-- The page that is shown is found where the editor looks for it after a deletion, and the one that
took its place if it was deleted itself. -/
theorem getElem?_deleted (distinct : ids.Nodup) (found : ids[i]? = some id)
    (shown : ids[j]? = some current) (many : 1 < ids.length) :
    (ids.eraseIdx i)[if ids.length - 1 ≤ j then ids.length - 1 - 1
        else if i < j then j - 1 else j]? =
      some (if current = id then ((ids.eraseIdx i)[min i (ids.length - 1 - 1)]?).getD id
        else current) := by
  obtain ⟨inside, same⟩ := List.getElem?_eq_some_iff.mp found
  obtain ⟨inside', -⟩ := List.getElem?_eq_some_iff.mp shown
  have length : (ids.eraseIdx i).length = ids.length - 1 := List.length_eraseIdx_of_lt inside
  by_cases gone : current = id
  · subst gone
    have here := index_inj distinct found shown
    subst here
    have place : (if ids.length - 1 ≤ i then ids.length - 1 - 1
        else if i < i then i - 1 else i) = min i (ids.length - 1 - 1) := by
      rw [if_neg (Nat.lt_irrefl i)]
      split <;> omega
    rw [if_pos rfl, place, List.getElem?_eq_getElem (by omega), Option.getD_some]
  · have other : i ≠ j := by
      rintro rfl
      exact gone (Option.some.inj (shown.symm.trans found))
    rw [if_neg gone, ← getElem?_eraseIdx_other shown other]
    congr 1
    split <;> split <;> omega

end

variable {h : UseDocument} {b : Book}

theorem Showing.length {document : DocumentObject} {index : Nat}
    (showing : Showing document index b) : document.pages.length = b.ids.length := by
  rw [← showing.ids, List.length_map]

theorem Showing.page? {document : DocumentObject} {index : Nat}
    (showing : Showing document index b) (i : Nat) :
    b.ids[i]? = document.pages[i]?.map PageObject.pageId := by
  rw [← showing.ids, List.getElem?_map]

/-- Pages that are numbered anew show a book of the same ids. -/
theorem showing_renumber {pages : List PageObject} {index : Nat}
    (ids : pages.map PageObject.pageId = b.ids) (distinct : b.ids.Nodup)
    (current : b.ids[index]? = some b.current) {pageCount : Nat}
    (count : pageCount = pages.length) :
    Showing ⟨renumber pages, pageCount⟩ index b where
  numbered := numbered_renumber pages
  counted := count.trans (length_renumber pages).symm
  ids := (ids_renumber pages).trans ids
  distinct := distinct
  current := current

theorem goToPage_shows (shows_ : Shows h b) (pageIndex : Int) :
    Shows (h.goToPage pageIndex) (b.step (.goToPage pageIndex)) := by
  obtain ⟨_, index, dirty⟩ := h
  obtain ⟨document, rfl, showing⟩ := shows_
  dsimp only [UseDocument.goToPage, Book.step] at showing ⊢
  rw [showing.length]
  cases found : b.ids[pageIndex.toNat]? with
  | none =>
    have outside := List.getElem?_eq_none_iff.mp found
    rw [if_neg (by omega)]
    exact ⟨document, rfl, showing⟩
  | some id =>
    obtain ⟨inside, -⟩ := List.getElem?_eq_some_iff.mp found
    by_cases positive : 0 ≤ pageIndex
    · rw [if_pos ⟨positive, by omega⟩]
      dsimp only
      rw [if_pos positive]
      exact ⟨document, rfl, { showing with current := found }⟩
    · rw [if_neg (positive ·.1)]
      dsimp only
      rw [if_neg positive]
      exact ⟨document, rfl, showing⟩

theorem addPage_shows (shows_ : Shows h b) {pageId : String} (fresh : pageId ∉ b.ids) :
    Shows (h.addPage pageId) (b.step (.addPage pageId)) := by
  obtain ⟨_, index, dirty⟩ := h
  obtain ⟨document, rfl, showing⟩ := shows_
  dsimp only [UseDocument.addPage, UseDocument.setPages, Book.step] at showing ⊢
  refine ⟨_, rfl, ?_⟩
  have length := showing.length
  constructor
  · rw [List.map_append, showing.numbered, List.length_append, List.length_singleton,
      List.range_succ, List.map_append]
    rfl
  · rfl
  · rw [List.map_append, showing.ids]
    rfl
  · rw [List.nodup_append]
    refine ⟨showing.distinct, List.nodup_singleton _, fun a mem c same eq => ?_⟩
    rw [List.mem_singleton] at same
    exact fresh (same ▸ eq ▸ mem)
  · dsimp only
    rw [List.length_append, List.length_singleton, Nat.add_sub_cancel, length]
    exact List.getElem?_concat_length

theorem deletePage_shows (shows_ : Shows h b) (pageIndex : Int) :
    Shows (h.deletePage pageIndex) (b.step (.deletePage pageIndex)) := by
  obtain ⟨_, index, dirty⟩ := h
  obtain ⟨document, rfl, showing⟩ := shows_
  dsimp only [UseDocument.deletePage, UseDocument.setPages, Book.step] at showing ⊢
  rw [showing.length]
  cases found : b.ids[pageIndex.toNat]? with
  | none =>
    have outside := List.getElem?_eq_none_iff.mp found
    have stays : pageIndex < 0 ∨ (b.ids.length : Int) ≤ pageIndex := by omega
    by_cases few : b.ids.length ≤ 1
    · rw [if_pos few]
      exact ⟨document, rfl, showing⟩
    · rw [if_neg few, if_pos stays]
      exact ⟨document, rfl, showing⟩
  | some id =>
    obtain ⟨inside, same⟩ := List.getElem?_eq_some_iff.mp found
    dsimp only
    by_cases deletes : 0 ≤ pageIndex ∧ 1 < b.ids.length
    · rw [if_neg (by omega), if_neg (by omega), if_pos deletes]
      have erased := erase_eq_eraseIdx showing.distinct found
      have length : (document.pages.eraseIdx pageIndex.toNat).length = b.ids.length - 1 := by
        rw [List.length_eraseIdx_of_lt (showing.length ▸ inside), showing.length]
      have length' : (b.ids.eraseIdx pageIndex.toNat).length = b.ids.length - 1 :=
        List.length_eraseIdx_of_lt inside
      refine ⟨_, rfl, showing_renumber ?_ (showing.distinct.erase id) ?_ (length_renumber _)⟩
      · rw [← List.eraseIdx_map, showing.ids, erased]
      · dsimp only
        rw [length_renumber, length, erased, length']
        have place : (pageIndex < (index : Int)) = (pageIndex.toNat < index) :=
          propext (by omega)
        simp only [place]
        exact getElem?_deleted showing.distinct found showing.current deletes.2
    · rw [if_neg deletes]
      by_cases few : b.ids.length ≤ 1
      · rw [if_pos few]
        exact ⟨document, rfl, showing⟩
      · rw [if_neg few, if_pos (by omega)]
        exact ⟨document, rfl, showing⟩

theorem reorderPages_shows (shows_ : Shows h b) (fromIndex toIndex : Int) :
    Shows (h.reorderPages fromIndex toIndex) (b.step (.reorderPages fromIndex toIndex)) := by
  obtain ⟨_, index, dirty⟩ := h
  obtain ⟨document, rfl, showing⟩ := shows_
  dsimp only [UseDocument.reorderPages, Book.step] at showing ⊢
  rw [showing.length]
  cases found : b.ids[fromIndex.toNat]? with
  | none =>
    have outside := List.getElem?_eq_none_iff.mp found
    rw [if_pos (by omega)]
    exact ⟨document, rfl, showing⟩
  | some id =>
    obtain ⟨inside, same⟩ := List.getElem?_eq_some_iff.mp found
    dsimp only
    by_cases moves : 0 ≤ fromIndex ∧ 0 ≤ toIndex ∧ toIndex < b.ids.length
    · rw [if_neg (by omega), if_pos moves]
      rw [showing.page?, Option.map_eq_some_iff] at found
      obtain ⟨movedPage, page, movedId⟩ := found
      have found : b.ids[fromIndex.toNat]? = some id := List.getElem?_eq_some_iff.mpr ⟨inside, same⟩
      have erased := erase_eq_eraseIdx showing.distinct found
      have inserts : toIndex.toNat ≤ (b.ids.erase id).length := by
        rw [erased, List.length_eraseIdx_of_lt inside]
        omega
      have perm := (List.perm_insertIdx id (b.ids.erase id) inserts).trans
        (List.perm_cons_erase (same ▸ List.getElem_mem inside)).symm
      rw [page]
      dsimp only
      have fits : toIndex.toNat ≤ (document.pages.eraseIdx fromIndex.toNat).length := by
        rw [List.length_eraseIdx_of_lt (showing.length ▸ inside), showing.length]
        omega
      have count : ((document.pages.eraseIdx fromIndex.toNat).insertIdx toIndex.toNat
          movedPage).length = document.pages.length := by
        rw [List.length_insertIdx_of_le_length fits, List.length_eraseIdx_of_lt
          (showing.length ▸ inside), showing.length]
        omega
      refine ⟨_, rfl, showing_renumber ?_ (perm.nodup_iff.mpr showing.distinct) ?_
        (showing.counted.trans count.symm)⟩
      · rw [List.map_insertIdx, ← List.eraseIdx_map, showing.ids, erased, movedId]
      · dsimp only
        have here : ((index : Int) = fromIndex) = (index = fromIndex.toNat) := propext (by omega)
        have up : (fromIndex < (index : Int) ∧ (index : Int) ≤ toIndex) =
            (fromIndex.toNat < index ∧ index ≤ toIndex.toNat) := propext (by omega)
        have down : ((index : Int) < fromIndex ∧ toIndex ≤ (index : Int)) =
            (index < fromIndex.toNat ∧ toIndex.toNat ≤ index) := propext (by omega)
        simp only [here, up, down, erased]
        exact getElem?_moved found showing.current (by omega)
    · rw [if_pos (by omega), if_neg moves]
      exact ⟨document, rfl, showing⟩

theorem duplicatePage_shows (shows_ : Shows h b) (pageIndex : Int) {pageId : String}
    (fresh : pageId ∉ b.ids) (elementIds : Nat → String) :
    Shows (h.duplicatePage pageIndex pageId elementIds)
      (b.step (.duplicatePage pageIndex pageId elementIds)) := by
  obtain ⟨_, index, dirty⟩ := h
  obtain ⟨document, rfl, showing⟩ := shows_
  dsimp only [UseDocument.duplicatePage, UseDocument.setPages, Book.step] at showing ⊢
  rw [showing.length]
  by_cases inside : 0 ≤ pageIndex ∧ pageIndex < b.ids.length
  · rw [if_neg (by omega), if_pos inside]
    have within : pageIndex.toNat < document.pages.length := by
      rw [showing.length]
      omega
    rw [List.getElem?_eq_getElem within]
    dsimp only
    have perm : (b.ids.take (pageIndex.toNat + 1) ++ pageId ::
        b.ids.drop (pageIndex.toNat + 1)).Perm (pageId :: b.ids) := by
      refine List.perm_middle.trans ?_
      rw [List.take_append_drop]
    refine ⟨_, rfl, showing_renumber ?_ ?_ ?_ (length_renumber _)⟩
    · rw [List.map_append, List.map_cons, List.map_take, List.map_drop, showing.ids]
    · exact perm.nodup_iff.mpr (List.nodup_cons.mpr ⟨fresh, showing.distinct⟩)
    · have length : (b.ids.take (pageIndex.toNat + 1)).length = pageIndex.toNat + 1 :=
        List.length_take_of_le (by omega)
      dsimp only
      rw [List.getElem?_append_right (Nat.le_of_eq length), length, Nat.sub_self]
      rfl
  · rw [if_pos (by omega), if_neg inside]
    exact ⟨document, rfl, showing⟩

theorem changePages_shows (shows_ : Shows h b) (change : Nat → List Element → List Element) :
    Shows (h.changePages change) b := by
  obtain ⟨_, index, dirty⟩ := h
  obtain ⟨document, rfl, showing⟩ := shows_
  refine ⟨_, rfl, ?_⟩
  have same : ∀ {β : Type} (f : PageObject → β),
      (∀ page elements, f { page with elements := elements } = f page) →
      (document.pages.mapIdx fun i page =>
        { page with elements := change i page.elements }).map f = document.pages.map f := by
    intro β f other
    apply List.ext_getElem <;> simp [other]
  constructor
  · rw [same PageObject.pageNumber fun _ _ => rfl, List.length_mapIdx]
    exact showing.numbered
  · rw [List.length_mapIdx]
    exact showing.counted
  · rw [same PageObject.pageId fun _ _ => rfl]
    exact showing.ids
  · exact showing.distinct
  · exact showing.current

theorem replacePages_shows (shows_ : Shows h b) {newPages : List PageObject}
    (admits : b.Admits (.replacePages newPages)) :
    Shows (h.replacePages newPages) (b.step (.replacePages newPages)) := by
  obtain ⟨_, index, dirty⟩ := h
  obtain ⟨document, rfl, showing⟩ := shows_
  obtain ⟨numbered, distinct, inside⟩ := admits
  refine ⟨_, rfl, ⟨numbered, rfl, rfl, distinct, ?_⟩⟩
  obtain ⟨within, same⟩ := List.getElem?_eq_some_iff.mp showing.current
  have place : b.ids.idxOf b.current = index := by
    rw [← same]
    exact showing.distinct.idxOf_getElem index within
  have there : index < (newPages.map PageObject.pageId).length := by
    rw [List.length_map, ← place]
    exact inside
  dsimp only [Book.step, UseDocument.replacePages, UseDocument.setPages]
  rw [place, List.getElem?_eq_getElem there, Option.getD_some]

theorem step_shows (shows_ : Shows h b) {op : Op} (admits : b.Admits op) :
    Shows (step h op) (b.step op) := by
  cases op with
  | goToPage pageIndex => exact goToPage_shows shows_ pageIndex
  | addPage pageId => exact addPage_shows shows_ admits
  | deletePage pageIndex => exact deletePage_shows shows_ pageIndex
  | reorderPages fromIndex toIndex => exact reorderPages_shows shows_ fromIndex toIndex
  | duplicatePage pageIndex pageId elementIds =>
    exact duplicatePage_shows shows_ pageIndex admits elementIds
  | addElementToPage | updateElementInPage | removeElementFromPage =>
    exact changePages_shows shows_ _
  | replacePages newPages => exact replacePages_shows shows_ admits

end GigaPdf.DocumentHook
