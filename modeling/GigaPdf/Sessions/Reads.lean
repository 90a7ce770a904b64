import Mathlib.Logic.Function.Basic
import GigaPdf.Sessions.Documents
import GigaPdf.Sessions.PageNumbers

/-!
# Reading a session

`get_document` and `get_page` hand out the page objects of the session itself. A document without
its elements is made by emptying these objects, and the session has lost them.
-/

namespace GigaPdf.Sessions

/-! ## Page objects by reference -/

abbrev PageRef := Nat

/-- A session in the cache of a worker. The scene graph refers to its page objects, which have been
allocated before. -/
structure LiveSession where
  heap : PageRef → PageObject
  allocated : PageRef
  sceneGraph : DocumentObject PageRef
  lastAccessed : Time
  valid : ∀ ref ∈ sceneGraph.pages, ref < allocated

namespace DocumentObject

variable {π ρ : Type}

def mapPages (f : π → ρ) (doc : DocumentObject π) : DocumentObject ρ where
  documentId := doc.documentId
  metadata := doc.metadata
  pages := doc.pages.map f
  outlines := doc.outlines
  namedDestinations := doc.namedDestinations
  embeddedFiles := doc.embeddedFiles
  layers := doc.layers

end DocumentObject

def PageObject.withoutElements (page : PageObject) : PageObject := { page with elements := [] }

inductive ReadError
  | badRange (error : PageNumbers.ValueError)
  | pageNotFound (pageNumber : Int)
deriving DecidableEq

inductive ReadAnswer (π : Type)
  | document (doc : DocumentObject π)
  | page (page : π)

def ReadAnswer.mapPages {π ρ : Type} (f : π → ρ) : ReadAnswer π → ReadAnswer ρ
  | .document d => .document (d.mapPages f)
  | .page p => .page (f p)

inductive ReadCall
  | getDocument (includeElements : Bool) (pageRange : Option (List Char))
  | getPage (pageNumber : Int) (includeElements : Bool)

/-- The pages of a range; the text of the range may be missing or empty. -/
def DocumentObject.filterPages {π : Type} (number : π → Int) (doc : DocumentObject π)
    (pageRange : Option (List Char)) : Except ReadError (DocumentObject π) :=
  match pageRange with
  | none | some [] => .ok doc
  | some range =>
    match PageNumbers.parsePageRange range doc.metadata.pageCount with
    | .error error => .error (.badRange error)
    | .ok pageNums =>
      .ok { doc with
        pages := doc.pages.filter fun page => number page ∈ pageNums
        namedDestinations := [] }

/-- `page.elements = []` for each page -/
def removeElements (heap : PageRef → PageObject) (pages : List PageRef) : PageRef → PageObject :=
  pages.foldl (fun heap ref => Function.update heap ref (heap ref).withoutElements) heap

namespace LiveSession

variable (σ : LiveSession)

def touch (now : Time) : LiveSession := { σ with lastAccessed := now }

def getDocument (includeElements : Bool) (pageRange : Option (List Char)) :
    Except ReadError (ReadAnswer PageRef) × LiveSession :=
  match σ.sceneGraph.filterPages (fun ref => (σ.heap ref).pageNumber) pageRange with
  | .error error => (.error error, σ)
  | .ok doc =>
    (.ok (.document doc),
      if includeElements then σ else { σ with heap := removeElements σ.heap doc.pages })

/-- A new page object with the fields of a page, but without its elements. -/
def allocateBare (ref : PageRef) : LiveSession where
  heap := Function.update σ.heap σ.allocated (σ.heap ref).withoutElements
  allocated := σ.allocated + 1
  sceneGraph := σ.sceneGraph
  lastAccessed := σ.lastAccessed
  valid := fun ref mem => Nat.lt_succ_of_lt (σ.valid ref mem)

def getPage (pageNumber : Int) (includeElements : Bool) :
    Except ReadError (ReadAnswer PageRef) × LiveSession :=
  if pageNumber < 1 ∨ σ.sceneGraph.pages.length < pageNumber then
    (.error (.pageNotFound pageNumber), σ)
  else
    match σ.sceneGraph.pages[(pageNumber - 1).toNat]? with
    | none => (.error (.pageNotFound pageNumber), σ)
    | some ref =>
      if includeElements then (.ok (.page ref), σ)
      else (.ok (.page σ.allocated), σ.allocateBare ref)

/-- Each read looks the session up first. -/
def read (now : Time) : ReadCall → Except ReadError (ReadAnswer PageRef) × LiveSession
  | .getDocument includeElements pageRange => (σ.touch now).getDocument includeElements pageRange
  | .getPage pageNumber includeElements => (σ.touch now).getPage pageNumber includeElements

def readAll (σ : LiveSession) (calls : List (Time × ReadCall)) : LiveSession :=
  calls.foldl (fun σ call => (σ.read call.1 call.2).2) σ

/-- The scene graph with its pages in it. -/
def graph : DocumentObject PageObject := σ.sceneGraph.mapPages σ.heap

/-- The pages of an answer as they are after the read. -/
def handed (read : Except ReadError (ReadAnswer PageRef) × LiveSession) :
    Except ReadError (ReadAnswer PageObject) :=
  read.1.map (ReadAnswer.mapPages read.2.heap)

def answer (now : Time) (call : ReadCall) : Except ReadError (ReadAnswer PageObject) :=
  handed (σ.read now call)

/-- What `save_session` stores of the session that reads can change. -/
structure Saved where
  sceneGraph : DocumentObject PageObject
  lastAccessed : Time

def saveSession : Saved := ⟨σ.graph, σ.lastAccessed⟩

/-- The scene graph is the same, and so are what is read from it and saved of it. -/
structure Unread (τ : LiveSession) : Prop where
  graph : τ.graph = σ.graph
  answer : ∀ now call, τ.answer now call = σ.answer now call
  saved : τ.saveSession.sceneGraph = σ.saveSession.sceneGraph

end LiveSession

/-! ## What a read does to the graph -/

/-- Whether a read empties a page with this number. -/
def ReadCall.empties (pageCount : Nat) (number : Int) : ReadCall → Bool
  | .getDocument true _ | .getPage _ _ => false
  | .getDocument false none | .getDocument false (some []) => true
  | .getDocument false (some range) =>
    match PageNumbers.parsePageRange range pageCount with
    | .error _ => false
    | .ok pageNums => number ∈ pageNums

@[simp] theorem PageObject.withoutElements_pageNumber (page : PageObject) :
    page.withoutElements.pageNumber = page.pageNumber := rfl

@[simp] theorem PageObject.withoutElements_twice (page : PageObject) :
    page.withoutElements.withoutElements = page.withoutElements := rfl

theorem PageObject.withoutElements_eq_self {page : PageObject} :
    page.withoutElements = page ↔ page.elements = [] := by
  constructor
  · intro same
    rw [← same]
    rfl
  · intro none
    cases page
    cases none
    rfl

theorem removeElements_apply (heap : PageRef → PageObject) (pages : List PageRef) (ref : PageRef) :
    removeElements heap pages ref = if ref ∈ pages then (heap ref).withoutElements else heap ref := by
  induction pages generalizing heap with
  | nil => simp [removeElements]
  | cons page pages ih =>
    have step : removeElements heap (page :: pages) =
        removeElements (Function.update heap page (heap page).withoutElements) pages := rfl
    rw [step, ih]
    by_cases here : ref = page
    · subst here
      simp
    · simp [here]

/-- A page range selects the pages of the graph as it selects their references. -/
theorem DocumentObject.filterPages_mapPages {π ρ : Type} (doc : DocumentObject π) (f : π → ρ)
    (number : ρ → Int) (pageRange : Option (List Char)) :
    (doc.mapPages f).filterPages number pageRange =
      (doc.filterPages (fun page => number (f page)) pageRange).map (mapPages f) := by
  unfold filterPages
  split
  · rfl
  · rfl
  · have count : (doc.mapPages f).metadata.pageCount = doc.metadata.pageCount := rfl
    rw [count]
    split
    · rfl
    · simp [mapPages, List.filter_map, Function.comp_def, Except.map]

/-- The pages that `get_document` selects are those that it empties, when it leaves out elements. -/
theorem DocumentObject.mem_filterPages {π : Type} {doc selected : DocumentObject π}
    {number : π → Int} {pageRange : Option (List Char)} {page : π} (mem : page ∈ doc.pages)
    (filtered : doc.filterPages number pageRange = .ok selected) :
    page ∈ selected.pages ↔
      (ReadCall.getDocument false pageRange).empties doc.metadata.pageCount (number page) := by
  unfold filterPages at filtered
  split at filtered
  · cases filtered
    simp [ReadCall.empties, mem]
  · cases filtered
    simp [ReadCall.empties, mem]
  · rename_i range nonempty
    have empties : (ReadCall.getDocument false (some range)).empties doc.metadata.pageCount
        (number page) = match PageNumbers.parsePageRange range doc.metadata.pageCount with
          | .error _ => false
          | .ok pageNums => decide (number page ∈ pageNums) := by
      cases range with
      | nil => exact absurd rfl nonempty
      | cons c cs => rfl
    rw [empties]
    split at filtered
    · cases filtered
    · cases filtered
      simp [mem]

theorem DocumentObject.not_empties_of_error {π : Type} {doc : DocumentObject π} {number : π → Int}
    {pageRange : Option (List Char)} {error : ReadError} (page : π)
    (refused : doc.filterPages number pageRange = .error error) :
    (ReadCall.getDocument false pageRange).empties doc.metadata.pageCount (number page) = false := by
  unfold filterPages at refused
  split at refused
  · cases refused
  · cases refused
  · rename_i range nonempty
    split at refused
    · rename_i error' parsed
      cases range with
      | nil => exact absurd rfl nonempty
      | cons c cs => simp [ReadCall.empties, parsed]
    · cases refused

/-- What a read leaves of a page. -/
def ReadCall.leaves (call : ReadCall) (pageCount : Nat) (page : PageObject) : PageObject :=
  if call.empties pageCount page.pageNumber then page.withoutElements else page

theorem DocumentObject.mapPages_congr {π ρ : Type} {doc : DocumentObject π} {f g : π → ρ}
    (same : ∀ page ∈ doc.pages, f page = g page) : doc.mapPages f = doc.mapPages g := by
  unfold mapPages
  rw [List.map_congr_left same]

theorem DocumentObject.mapPages_mapPages {π ρ τ : Type} (doc : DocumentObject π) (f : π → ρ)
    (g : ρ → τ) : (doc.mapPages f).mapPages g = doc.mapPages fun page => g (f page) := by
  simp [mapPages]

theorem DocumentObject.mapPages_eq_self {π : Type} {doc : DocumentObject π} {f : π → π} :
    doc.mapPages f = doc ↔ ∀ page ∈ doc.pages, f page = page := by
  have pages : doc.mapPages f = doc ↔ doc.pages.map f = doc.pages.map id := by
    cases doc
    simp [mapPages]
  rw [pages, List.map_inj_left]
  rfl

namespace LiveSession

theorem getDocument_sceneGraph (σ : LiveSession) (includeElements : Bool)
    (pageRange : Option (List Char)) :
    (σ.getDocument includeElements pageRange).2.sceneGraph = σ.sceneGraph := by
  unfold getDocument
  split
  · rfl
  · cases includeElements <;> rfl

theorem getDocument_heap (σ : LiveSession) (includeElements : Bool)
    (pageRange : Option (List Char)) (ref : PageRef) (mem : ref ∈ σ.sceneGraph.pages) :
    (σ.getDocument includeElements pageRange).2.heap ref =
      (ReadCall.getDocument includeElements pageRange).leaves σ.sceneGraph.metadata.pageCount
        (σ.heap ref) := by
  unfold getDocument
  cases includeElements with
  | true => split <;> rfl
  | false =>
    split
    · rename_i error refused
      have kept := DocumentObject.not_empties_of_error ref refused
      rw [ReadCall.leaves, kept]
      rfl
    · rename_i selected filtered
      have emptied := DocumentObject.mem_filterPages mem filtered
      rw [ReadCall.leaves, if_congr emptied.symm rfl rfl]
      exact removeElements_apply σ.heap selected.pages ref

theorem getPage_sceneGraph (σ : LiveSession) (pageNumber : Int) (includeElements : Bool) :
    (σ.getPage pageNumber includeElements).2.sceneGraph = σ.sceneGraph := by
  unfold getPage
  split
  · rfl
  · split
    · rfl
    · cases includeElements <;> rfl

/-- The page object that `get_page` builds is none of the session. -/
theorem getPage_heap (σ : LiveSession) (pageNumber : Int) (includeElements : Bool) (ref : PageRef)
    (mem : ref ∈ σ.sceneGraph.pages) :
    (σ.getPage pageNumber includeElements).2.heap ref = σ.heap ref := by
  unfold getPage
  split
  · rfl
  · split
    · rfl
    · cases includeElements with
      | true => rfl
      | false =>
        have old : ref ≠ σ.allocated := Nat.ne_of_lt (σ.valid ref mem)
        exact Function.update_of_ne old _ _

theorem read_graph (σ : LiveSession) (now : Time) (call : ReadCall) :
    (σ.read now call).2.graph = σ.graph.mapPages (call.leaves σ.graph.metadata.pageCount) := by
  have same : (σ.read now call).2.sceneGraph = σ.sceneGraph := by
    cases call with
    | getDocument includeElements pageRange => exact getDocument_sceneGraph _ _ _
    | getPage pageNumber includeElements => exact getPage_sceneGraph _ _ _
  have heap : ∀ ref ∈ σ.sceneGraph.pages, (σ.read now call).2.heap ref =
      call.leaves σ.graph.metadata.pageCount (σ.heap ref) := by
    intro ref mem
    cases call with
    | getDocument includeElements pageRange => exact getDocument_heap _ _ _ ref mem
    | getPage pageNumber includeElements => exact getPage_heap _ _ _ ref mem
  calc (σ.read now call).2.graph
      = σ.sceneGraph.mapPages (σ.read now call).2.heap := by rw [graph, same]
    _ = σ.sceneGraph.mapPages fun ref => call.leaves σ.graph.metadata.pageCount (σ.heap ref) :=
        DocumentObject.mapPages_congr heap
    _ = σ.graph.mapPages (call.leaves σ.graph.metadata.pageCount) :=
        (DocumentObject.mapPages_mapPages _ _ _).symm

/-! ## Runs of reads -/

/-- The calls that empty a page leave it without elements, whatever their order. -/
theorem readAll_graph (σ : LiveSession) (calls : List (Time × ReadCall)) :
    (σ.readAll calls).graph = σ.graph.mapPages fun page =>
      if calls.any fun call => call.2.empties σ.graph.metadata.pageCount page.pageNumber
      then page.withoutElements else page := by
  induction calls generalizing σ with
  | nil => exact (DocumentObject.mapPages_eq_self.mpr fun page _ => rfl).symm
  | cons call calls ih =>
    have count : (σ.read call.1 call.2).2.graph.metadata = σ.graph.metadata := by
      rw [read_graph]
      rfl
    have step : σ.readAll (call :: calls) = (σ.read call.1 call.2).2.readAll calls := rfl
    rw [step, ih, count, read_graph, DocumentObject.mapPages_mapPages]
    apply DocumentObject.mapPages_congr
    intro page _
    rw [List.any_cons]
    unfold ReadCall.leaves
    cases here : call.2.empties σ.graph.metadata.pageCount page.pageNumber with
    | false => rfl
    | true => exact ite_self _

end LiveSession

/-! ## Answers -/

/-- What a read answers, as the graph alone tells it. -/
def ReadCall.answer (graph : DocumentObject PageObject) :
    ReadCall → Except ReadError (ReadAnswer PageObject)
  | .getDocument includeElements pageRange =>
    (graph.filterPages PageObject.pageNumber pageRange).map fun doc =>
      .document (if includeElements then doc else doc.mapPages PageObject.withoutElements)
  | .getPage pageNumber includeElements =>
    if pageNumber < 1 ∨ graph.pages.length < pageNumber then .error (.pageNotFound pageNumber)
    else
      match graph.pages[(pageNumber - 1).toNat]? with
      | none => .error (.pageNotFound pageNumber)
      | some page => .ok (.page (if includeElements then page else page.withoutElements))

namespace LiveSession

theorem handed_getDocument (σ : LiveSession) (includeElements : Bool)
    (pageRange : Option (List Char)) :
    handed (σ.getDocument includeElements pageRange) =
      (ReadCall.getDocument includeElements pageRange).answer σ.graph := by
  have filtered : σ.graph.filterPages PageObject.pageNumber pageRange = _ :=
    σ.sceneGraph.filterPages_mapPages σ.heap PageObject.pageNumber pageRange
  simp only [getDocument, ReadCall.answer]
  rw [filtered]
  split
  · rename_i error refused
    rw [refused]
    rfl
  · rename_i selected accepted
    rw [accepted]
    cases includeElements with
    | true => rfl
    | false =>
      have emptied : selected.mapPages (removeElements σ.heap selected.pages) =
          (selected.mapPages σ.heap).mapPages PageObject.withoutElements := by
        rw [DocumentObject.mapPages_mapPages]
        apply DocumentObject.mapPages_congr
        intro ref mem
        rw [removeElements_apply, if_pos mem]
      exact congrArg (fun doc => Except.ok (ReadAnswer.document doc)) emptied

theorem handed_getPage (σ : LiveSession) (pageNumber : Int) (includeElements : Bool) :
    handed (σ.getPage pageNumber includeElements) =
      (ReadCall.getPage pageNumber includeElements).answer σ.graph := by
  have length : σ.graph.pages.length = σ.sceneGraph.pages.length := List.length_map _
  have lookup : σ.graph.pages[(pageNumber - 1).toNat]? =
      (σ.sceneGraph.pages[(pageNumber - 1).toNat]? : Option PageRef).map σ.heap := List.getElem?_map
  simp only [getPage, ReadCall.answer]
  rw [length, lookup]
  by_cases outside : pageNumber < 1 ∨ σ.sceneGraph.pages.length < pageNumber
  · rw [if_pos outside, if_pos outside]
    rfl
  · rw [if_neg outside, if_neg outside]
    cases found : σ.sceneGraph.pages[(pageNumber - 1).toNat]? with
    | none => rfl
    | some ref =>
      cases includeElements with
      | true => rfl
      | false =>
        have built : (σ.allocateBare ref).heap σ.allocated = (σ.heap ref).withoutElements :=
          Function.update_self _ _ _
        exact congrArg (fun page => Except.ok (ReadAnswer.page page)) built

theorem answer_eq (σ : LiveSession) (now : Time) (call : ReadCall) :
    σ.answer now call = call.answer σ.graph := by
  cases call with
  | getDocument includeElements pageRange => exact handed_getDocument (σ.touch now) _ _
  | getPage pageNumber includeElements => exact handed_getPage (σ.touch now) _ _

theorem unread_iff {σ τ : LiveSession} : σ.Unread τ ↔ τ.graph = σ.graph := by
  constructor
  · exact Unread.graph
  · intro same
    refine ⟨same, fun now call => ?_, same⟩
    rw [answer_eq, answer_eq, same]

/-- Reads are without effect as long as `get_document` leaves out no elements of pages that have
some. -/
theorem reads_unread_iff (σ : LiveSession) (calls : List (Time × ReadCall)) :
    σ.Unread (σ.readAll calls) ↔ ∀ call ∈ calls, ∀ page ∈ σ.graph.pages,
      call.2.empties σ.graph.metadata.pageCount page.pageNumber = true → page.elements = [] := by
  rw [unread_iff, readAll_graph, DocumentObject.mapPages_eq_self]
  constructor
  · intro kept call called page mem empties
    have emptied := kept page mem
    rw [if_pos (List.any_eq_true.mpr ⟨call, called, empties⟩)] at emptied
    exact PageObject.withoutElements_eq_self.mp emptied
  · intro none page mem
    split
    · rename_i any
      obtain ⟨call, called, empties⟩ := List.any_eq_true.mp any
      exact PageObject.withoutElements_eq_self.mpr (none call called page mem empties)
    · rfl

/-- One page with one text. -/
def onePage : LiveSession where
  heap := fun _ =>
    { pageId := "p1"
      pageNumber := 1
      dimensions := ⟨595, 842, 0⟩
      mediaBox := ⟨0, 0, 595, 842⟩
      cropBox := none
      elements := [⟨"e1".toList, .text, [], noFields_named⟩]
      preview := none }
  allocated := 1
  sceneGraph :=
    { documentId := "d1"
      metadata := ⟨1, .null⟩
      pages := [0]
      outlines := []
      namedDestinations := []
      embeddedFiles := []
      layers := [] }
  lastAccessed := 0
  valid := by simp

/-- The elements of the page are gone after the document has been read without them. -/
theorem getDocument_empties_session :
    ¬∀ (σ : LiveSession) (calls : List (Time × ReadCall)), σ.Unread (σ.readAll calls) := by
  intro frame
  have same := (frame onePage [(0, .getDocument false none)]).graph
  have counts := congrArg (fun graph => graph.pages.map fun page => page.elements.length) same
  exact absurd counts (by decide)

end LiveSession

end GigaPdf.Sessions
