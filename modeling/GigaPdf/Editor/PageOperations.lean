import GigaPdf.Editor.OperationsStore
import GigaPdf.Lib.Renumbering
import GigaPdf.Lib.Runs

/-!
# Page operations behind the queue

A queued operation holds the number of its page and the unified index of its element.
`runPageOperation` and other callers of `adoptModifiedPdf` swap the binary without a flush of the
queue, and leave the numbers in it as they are.
-/

namespace GigaPdf

open Upsert OperationsStore Renumbering

/-! ## The engine's page operations -/

/-- `key` and `elements` tell apart the pages, and the elements of a page. -/
structure BinaryPage where
  key : Nat
  elements : List Nat
  rotation : Int
  width : ℚ
  height : ℚ
deriving DecidableEq

abbrev PdfBinary := List BinaryPage

def defaultPageWidth : ℚ := 612

def defaultPageHeight : ℚ := 792

inductive RotateMode
  | set | delta
deriving DecidableEq

/-- The parameters of `/api/pdf/pages`. A new page gets a `key`. -/
inductive PageOperation
  | add (afterPage : Option Int) (width height : Option ℚ) (key : Nat)
  | delete (pageNumber : Nat)
  | move (fromPage toPage : Nat)
  | rotate (pageNumber : Nat) (degrees : Int) (mode : RotateMode)
  | copy (pageNumber : Nat) (insertAfter : Int) (key : Nat)
  | resize (pageNumber : Nat) (width height : ℚ)

namespace PdfBinary

variable (doc : PdfBinary)

def pageAt : Nat → Option BinaryPage
  | 0 => none
  | n + 1 => doc[n]?

/-- Raises `PDFPageOutOfRangeError` elsewhere. -/
def ValidPageNumber (pageNumber : Nat) : Prop := 1 ≤ pageNumber ∧ pageNumber ≤ doc.length

instance (pageNumber : Nat) : Decidable (ValidPageNumber doc pageNumber) := by
  unfold ValidPageNumber
  infer_instance

def clamp (least most position : Int) : Nat := (max least (min position most)).toNat

/-- Where `addPage` inserts, from 1. -/
def addPosition (afterPage : Option Int) : Nat :=
  let position := match afterPage with
    | some afterPage => afterPage + 1
    | none => 1
  clamp 1 (doc.length + 1) position

def addPage (afterPage : Option Int) (width height : Option ℚ) (key : Nat) : PdfBinary :=
  doc.insertIdx (addPosition doc afterPage - 1)
    ⟨key, [], 0, width.getD defaultPageWidth, height.getD defaultPageHeight⟩

/-- The last page that remains is not deleted. -/
def deletePage (pageNumber : Nat) : Option PdfBinary :=
  if ValidPageNumber doc pageNumber ∧ 1 < doc.length then some (doc.eraseIdx (pageNumber - 1))
  else none

def movePage (fromPage toPage : Nat) : Option PdfBinary :=
  if ValidPageNumber doc fromPage ∧ ValidPageNumber doc toPage then
    some (if fromPage = toPage then doc else move (fromPage - 1) (toPage - 1) doc)
  else none

def rotatePage (pageNumber : Nat) (angle : Int) (mode : RotateMode) : Option PdfBinary :=
  if ValidPageNumber doc pageNumber ∧ (angle = 90 ∨ angle = 180 ∨ angle = 270) then
    some (doc.modify (pageNumber - 1) fun page =>
      { page with
        rotation := (if mode = .delta then page.rotation + angle else angle) % 360 })
  else none

/-- Where `copyPage` leaves the copy, from 1. -/
def copyPosition (targetPosition : Int) : Nat := clamp 1 (doc.length + 1) targetPosition

/-- The copy is inserted after the page and then moved to its position. -/
def copyPage (pageNumber : Nat) (targetPosition : Int) (key : Nat) : Option PdfBinary :=
  if ValidPageNumber doc pageNumber then
    (pageAt doc pageNumber).map fun page =>
      let inserted := doc.insertIdx pageNumber { page with key }
      let target := copyPosition doc targetPosition
      if target = pageNumber + 1 then inserted else move pageNumber (target - 1) inserted
  else none

def resizePage (pageNumber : Nat) (width height : ℚ) : Option PdfBinary :=
  if ValidPageNumber doc pageNumber then
    some (doc.modify (pageNumber - 1) fun page => { page with width, height })
  else none

def runOperation : PageOperation → Option PdfBinary
  | .add afterPage width height key => some (addPage doc afterPage width height key)
  | .delete pageNumber => deletePage doc pageNumber
  | .move fromPage toPage => movePage doc fromPage toPage
  | .rotate pageNumber degrees mode => rotatePage doc pageNumber degrees mode
  | .copy pageNumber insertAfter key => copyPage doc pageNumber insertAfter key
  | .resize pageNumber width height => resizePage doc pageNumber width height

end PdfBinary

def PageOperation.newKey : PageOperation → Option Nat
  | .add _ _ _ key | .copy _ _ key => some key
  | _ => none

/-! ## The editor -/

/-- The element of a queued operation, with the index that it had when it was queued, and, to tell
which it was, the keys of its page and its own. -/
structure AddressedElement where
  elementId : String
  index : Option Nat
  page : Nat
  tag : Option Nat
deriving DecidableEq

instance : HasElementId AddressedElement := ⟨AddressedElement.elementId⟩

abbrev AddressedOperation := ElementOperation AddressedElement

structure QueueingEditor where
  binary : PdfBinary
  operations : List AddressedOperation
deriving DecidableEq

/-- `adopt` is any other call of `adoptModifiedPdf`, `bake` one of `getPreparedBlob` that succeeds,
each with the new binary. -/
inductive QueueingAction
  | queueAdd (pageNumber : Nat) (elementId : String)
  | queueUpdate (pageNumber : Nat) (elementId : String) (index : Option Nat) (oldBounds : Bounds)
  | queueDelete (pageNumber : Nat) (elementId : String) (index : Option Nat) (bounds : Bounds)
  | queueReorder (pageNumber : Nat) (elementId : String) (index : Option Nat) (toFront : Bool)
  | pageOperation (operation : PageOperation)
  | adopt (binary : PdfBinary)
  | bake (binary : PdfBinary)

/-- Pages have different keys. -/
def PdfBinary.Distinct (doc : PdfBinary) : Prop := (doc.map BinaryPage.key).Nodup

instance (doc : PdfBinary) : Decidable doc.Distinct :=
  inferInstanceAs (Decidable (doc.map BinaryPage.key).Nodup)

namespace QueueingEditor

/-- The element as it is queued. -/
def captured (σ : QueueingEditor) (pageNumber : Nat) (elementId : String) (index : Option Nat) :
    Option AddressedElement := do
  let page ← PdfBinary.pageAt σ.binary pageNumber
  match index with
  | none => return ⟨elementId, none, page.key, none⟩
  | some i =>
    let tag ← page.elements[i]?
    return ⟨elementId, some i, page.key, some tag⟩

/-- No page has or had the key. -/
def Fresh (σ : QueueingEditor) (key : Nat) : Prop :=
  key ∉ σ.binary.map BinaryPage.key ∧ ∀ op ∈ σ.operations, op.element.page ≠ key

instance (σ : QueueingEditor) (key : Nat) : Decidable (σ.Fresh key) := by
  unfold Fresh
  infer_instance

def step (σ : QueueingEditor) : QueueingAction → Option QueueingEditor
  | .queueAdd pageNumber elementId =>
    (σ.captured pageNumber elementId none).map fun element =>
      { σ with operations := queueAdd pageNumber element σ.operations }
  | .queueUpdate pageNumber elementId index oldBounds =>
    (σ.captured pageNumber elementId index).map fun element =>
      { σ with operations := queueUpdate pageNumber element oldBounds σ.operations }
  | .queueDelete pageNumber elementId index bounds =>
    (σ.captured pageNumber elementId index).map fun element =>
      { σ with operations := queueDelete pageNumber element bounds σ.operations }
  | .queueReorder pageNumber elementId index toFront =>
    (σ.captured pageNumber elementId index).map fun element =>
      { σ with operations := queueReorder pageNumber element toFront σ.operations }
  | .pageOperation operation =>
    if ∀ key ∈ operation.newKey, σ.Fresh key then
      (PdfBinary.runOperation σ.binary operation).map fun binary => { σ with binary }
    else none
  | .adopt binary => if binary.Distinct then some { σ with binary } else none
  | .bake binary => if binary.Distinct then some ⟨binary, (drain σ.operations).2⟩ else none

end QueueingEditor

/-! ## Addresses -/

namespace PdfBinary

variable (doc : PdfBinary)

/-- The page and the element that an operation is applied to. -/
def found (op : AddressedOperation) : Option (Nat × Option Nat) :=
  (pageAt doc op.pageNumber).map fun page =>
    (page.key, op.element.index.bind fun i => page.elements[i]?)

/-- The page and the element of the operation, as far as they are there. -/
def held (op : AddressedOperation) : Option (Nat × Option Nat) :=
  (doc.find? fun page => page.key = op.element.page).map fun page =>
    (page.key, op.element.index.bind fun _ => op.element.tag.filter fun tag => tag ∈ page.elements)

/-- The operation is applied to what it was made for. -/
def Addresses (op : AddressedOperation) : Prop := found doc op = held doc op

instance (op : AddressedOperation) : Decidable (Addresses doc op) :=
  inferInstanceAs (Decidable (found doc op = held doc op))

variable {doc} {doc' : PdfBinary} {op : AddressedOperation} {i : Nat} {page : BinaryPage}

theorem find_own (distinct : doc.Distinct) (here : doc[i]? = some page)
    (own : page.key = op.element.page) :
    (doc.find? fun page => page.key = op.element.page) = some page := by
  have mem := List.mem_of_getElem? here
  have some' : (doc.find? fun page => page.key = op.element.page).isSome :=
    List.find?_isSome.mpr ⟨page, mem, decide_eq_true own⟩
  obtain ⟨first, find⟩ := Option.isSome_iff_exists.mp some'
  have named := List.find?_some find
  rw [decide_eq_true_iff] at named
  have same := List.inj_on_of_nodup_map distinct (List.mem_of_find?_eq_some find) mem
    (named.trans own.symm)
  rw [find, same]

/-- An operation whose page is there must have its number. -/
theorem addresses_iff_of_page (distinct : doc.Distinct) (here : doc[i]? = some page)
    (own : page.key = op.element.page) :
    Addresses doc op ↔ op.pageNumber = i + 1 ∧
      (op.element.index.bind fun i => page.elements[i]?) =
        op.element.index.bind fun _ => op.element.tag.filter fun tag => tag ∈ page.elements := by
  rw [Addresses, held, find_own distinct here own, Option.map_some, found,
    Option.map_eq_some_iff]
  constructor
  · rintro ⟨other, at_n, same⟩
    obtain ⟨key, element⟩ := Prod.mk.inj same
    cases numbered : op.pageNumber with
    | zero =>
      rw [numbered] at at_n
      cases at_n
    | succ m =>
      rw [numbered, pageAt] at at_n
      have samePage := List.inj_on_of_nodup_map distinct (List.mem_of_getElem? at_n)
        (List.mem_of_getElem? here) key
      subst samePage
      have bound := (List.getElem?_eq_some_iff.mp at_n).1
      have once := (List.getElem?_inj bound distinct.of_map).mp (at_n.trans here.symm)
      exact ⟨congrArg (· + 1) once, element⟩
  · rintro ⟨numbered, element⟩
    refine ⟨page, ?_, by rw [element]⟩
    rw [numbered]
    exact here

/-- An operation whose page is gone must have the number of none. -/
theorem addresses_iff_of_gone (gone : ∀ page ∈ doc, page.key ≠ op.element.page) :
    Addresses doc op ↔ pageAt doc op.pageNumber = none := by
  have none' : (doc.find? fun page => page.key = op.element.page) = none := by
    rw [List.find?_eq_none]
    intro page mem
    simpa using gone page mem
  rw [Addresses, held, none', Option.map_none, found, Option.map_eq_none_iff]

/-- The page of the operation is there, or it is gone. -/
theorem page_cases (doc : PdfBinary) (op : AddressedOperation) :
    (∃ (i : Nat) (page : BinaryPage), doc[i]? = some page ∧ page.key = op.element.page) ∨
      ∀ page ∈ doc, page.key ≠ op.element.page := by
  by_cases there : ∃ page ∈ doc, page.key = op.element.page
  · obtain ⟨page, mem, own⟩ := there
    obtain ⟨i, here⟩ := List.mem_iff_getElem?.mp mem
    exact .inl ⟨i, page, here, own⟩
  · exact .inr fun page mem own => there ⟨page, mem, own⟩

/-- Where its page stays as it is, the operation follows it if the page has the same number. -/
theorem addresses_kept_iff (distinct : doc.Distinct) (distinct' : doc'.Distinct)
    (here : doc[i]? = some page) (own : page.key = op.element.page) {i' : Nat}
    {page' : BinaryPage} (there : doc'[i']? = some page') (key : page'.key = page.key)
    (elements : page'.elements = page.elements) (now : Addresses doc op) :
    Addresses doc' op ↔ i' = i := by
  obtain ⟨numbered, element⟩ := (addresses_iff_of_page distinct here own).mp now
  rw [addresses_iff_of_page distinct' there (key.trans own), elements]
  constructor
  · rintro ⟨numbered', _⟩
    omega
  · rintro rfl
    exact ⟨numbered, element⟩

theorem pageAt_eq_none_iff (doc : PdfBinary) (n : Nat) :
    pageAt doc n = none ↔ n = 0 ∨ doc.length < n := by
  cases n with
  | zero => simp [pageAt]
  | succ m =>
    rw [pageAt, List.getElem?_eq_none_iff]
    omega

theorem number_of_addresses (distinct : doc.Distinct) (here : doc[i]? = some page)
    (own : page.key = op.element.page) (now : Addresses doc op) :
    op.pageNumber = i + 1 ∧ i < doc.length :=
  ⟨((addresses_iff_of_page distinct here own).mp now).1, (List.getElem?_eq_some_iff.mp here).1⟩

/-! ## What the page operations do to addresses -/

theorem distinct_insertIdx (distinct : doc.Distinct) {k : Nat} (bound : k ≤ doc.length)
    (fresh : page.key ∉ doc.map BinaryPage.key) : Distinct (doc.insertIdx k page) := by
  have perm := (List.perm_insertIdx page doc bound).map BinaryPage.key
  rw [Distinct, perm.nodup_iff, List.map_cons, List.nodup_cons]
  exact ⟨fresh, distinct⟩

theorem addresses_insertIdx_iff (distinct : doc.Distinct) {k : Nat} (bound : k ≤ doc.length)
    {new : BinaryPage} (fresh : new.key ∉ doc.map BinaryPage.key)
    (unknown : op.element.page ≠ new.key) (now : Addresses doc op) :
    Addresses (doc.insertIdx k new) op ↔
      op.pageNumber < k + 1 ∨ doc.length + 1 < op.pageNumber := by
  rcases page_cases doc op with ⟨i, page, here, own⟩ | gone
  · obtain ⟨numbered, inside⟩ := number_of_addresses distinct here own now
    have there : (doc.insertIdx k new)[inserted k i]? = some page :=
      (getElem?_inserted new i).trans here
    rw [addresses_kept_iff distinct (distinct_insertIdx distinct bound fresh) here own there rfl
      rfl now, inserted_eq_iff]
    omega
  · have gone' : ∀ page ∈ doc.insertIdx k new, page.key ≠ op.element.page := by
      intro page mem
      rcases (List.mem_insertIdx bound).mp mem with rfl | mem
      · exact unknown.symm
      · exact gone page mem
    rw [addresses_iff_of_gone gone, pageAt_eq_none_iff] at now
    rw [addresses_iff_of_gone gone', pageAt_eq_none_iff,
      List.length_insertIdx_of_le_length bound]
    omega

theorem distinct_eraseIdx (distinct : doc.Distinct) (k : Nat) : Distinct (doc.eraseIdx k) :=
  ((List.eraseIdx_sublist doc k).map BinaryPage.key).nodup distinct

theorem addresses_eraseIdx_iff (distinct : doc.Distinct) {k : Nat} (bound : k < doc.length)
    (now : Addresses doc op) : Addresses (doc.eraseIdx k) op ↔
      op.pageNumber < k + 1 ∨ doc.length < op.pageNumber ∨ k + 1 = doc.length := by
  have length := List.length_eraseIdx_of_lt bound
  rcases page_cases doc op with ⟨i, page, here, own⟩ | gone
  · obtain ⟨numbered, inside⟩ := number_of_addresses distinct here own now
    by_cases deleted : i = k
    · have gone' : ∀ page' ∈ doc.eraseIdx k, page'.key ≠ op.element.page := by
        intro page' mem named
        have perm := List.getElem_cons_eraseIdx_perm bound
        have once := (perm.map BinaryPage.key).nodup_iff.mpr distinct
        rw [List.map_cons, List.nodup_cons] at once
        apply once.1
        have kept := List.mem_map_of_mem (f := BinaryPage.key) mem
        rw [named, ← own] at kept
        subst deleted
        rwa [(List.getElem?_eq_some_iff.mp here).2]
      rw [addresses_iff_of_gone gone', pageAt_eq_none_iff]
      omega
    · have there := (getElem?_erased deleted doc).trans here
      rw [addresses_kept_iff distinct (distinct_eraseIdx distinct k) here own there rfl rfl now,
        erased_eq_iff deleted]
      omega
  · have gone' : ∀ page ∈ doc.eraseIdx k, page.key ≠ op.element.page := fun page mem =>
      gone page (List.mem_of_mem_eraseIdx mem)
    rw [addresses_iff_of_gone gone, pageAt_eq_none_iff] at now
    rw [addresses_iff_of_gone gone', pageAt_eq_none_iff]
    omega

theorem distinct_move (distinct : doc.Distinct) {k m : Nat} (bound : k < doc.length)
    (bound' : m < doc.length) : Distinct (move k m doc) :=
  ((move_perm bound bound').map BinaryPage.key).nodup_iff.mpr distinct

theorem addresses_move_iff (distinct : doc.Distinct) {k m : Nat} (bound : k < doc.length)
    (bound' : m < doc.length) (apart : k ≠ m) (now : Addresses doc op) :
    Addresses (move k m doc) op ↔
      op.pageNumber < min k m + 1 ∨ max k m + 1 < op.pageNumber := by
  rcases page_cases doc op with ⟨i, page, here, own⟩ | gone
  · obtain ⟨numbered, inside⟩ := number_of_addresses distinct here own now
    have there := (getElem?_moved bound bound' i).trans here
    rw [addresses_kept_iff distinct (distinct_move distinct bound bound') here own there rfl rfl
      now, moved_eq_iff apart]
    omega
  · have gone' : ∀ page ∈ move k m doc, page.key ≠ op.element.page := fun page mem =>
      gone page ((move_perm bound bound').mem_iff.mp mem)
    rw [addresses_iff_of_gone gone, pageAt_eq_none_iff] at now
    rw [addresses_iff_of_gone gone', pageAt_eq_none_iff, length_move bound bound']
    omega

/-- A change that tells pages and elements apart as before. -/
theorem map_key_modify {f : BinaryPage → BinaryPage} (key : ∀ page, (f page).key = page.key)
    (k : Nat) : (doc.modify k f).map BinaryPage.key = doc.map BinaryPage.key := by
  apply List.ext_getElem?
  intro i
  rw [List.getElem?_map, List.getElem?_map, List.getElem?_modify]
  cases doc[i]? with
  | none => rfl
  | some page =>
    by_cases here : k = i <;> simp [here, key]

theorem distinct_modify {f : BinaryPage → BinaryPage} (key : ∀ page, (f page).key = page.key)
    (distinct : doc.Distinct) (k : Nat) : Distinct (doc.modify k f) := by
  rw [Distinct, map_key_modify key]
  exact distinct

theorem addresses_modify {f : BinaryPage → BinaryPage} (key : ∀ page, (f page).key = page.key)
    (elements : ∀ page, (f page).elements = page.elements) (distinct : doc.Distinct) (k : Nat)
    (now : Addresses doc op) : Addresses (doc.modify k f) op := by
  rcases page_cases doc op with ⟨i, page, here, own⟩ | gone
  · have there : (doc.modify k f)[i]? = some (if k = i then f page else page) := by
      rw [List.getElem?_modify, here]
      rfl
    refine
      (addresses_kept_iff distinct (distinct_modify key distinct k) here own there ?_ ?_ now).mpr
      rfl
    · split <;> simp [key]
    · split <;> simp [elements]
  · have gone' : ∀ page ∈ doc.modify k f, page.key ≠ op.element.page := by
      intro page mem named
      have kept := List.mem_map_of_mem (f := BinaryPage.key) mem
      rw [map_key_modify key, named] at kept
      obtain ⟨old, oldMem, same⟩ := List.mem_map.mp kept
      exact gone old oldMem same
    rw [addresses_iff_of_gone gone, pageAt_eq_none_iff] at now
    rw [addresses_iff_of_gone gone', pageAt_eq_none_iff, List.length_modify]
    exact now

theorem clamp_bounds (doc : PdfBinary) (position : Int) :
    1 ≤ clamp 1 (doc.length + 1) position ∧ clamp 1 (doc.length + 1) position ≤ doc.length + 1 := by
  rw [clamp]
  omega

theorem addPosition_bounds (doc : PdfBinary) (afterPage : Option Int) :
    1 ≤ addPosition doc afterPage ∧ addPosition doc afterPage ≤ doc.length + 1 := by
  unfold addPosition
  exact clamp_bounds doc _

theorem copyPosition_bounds (doc : PdfBinary) (targetPosition : Int) :
    1 ≤ copyPosition doc targetPosition ∧ copyPosition doc targetPosition ≤ doc.length + 1 :=
  clamp_bounds doc targetPosition

/-- The copy stands where it was to be, and the other pages keep their order. -/
theorem copyPage_eq {pageNumber key : Nat} {targetPosition : Int}
    (copied : copyPage doc pageNumber targetPosition key = some doc') :
    ∃ page, pageAt doc pageNumber = some page ∧
      doc' = doc.insertIdx (copyPosition doc targetPosition - 1) { page with key } := by
  obtain ⟨valid, copied⟩ := Option.ite_none_right_eq_some.mp copied
  obtain ⟨page, here, rfl⟩ := Option.map_eq_some_iff.mp copied
  refine ⟨page, here, ?_⟩
  obtain ⟨low, high⟩ := copyPosition_bounds doc targetPosition
  simp only
  split
  · rename_i after
    rw [after, Nat.add_sub_cancel]
  · have bound : pageNumber < (doc.insertIdx pageNumber { page with key }).length := by
      rw [List.length_insertIdx_of_le_length valid.2]
      exact Nat.lt_succ_of_le valid.2
    rw [move_eq bound, List.eraseIdx_insertIdx_self, List.getElem_insertIdx_self]

end PdfBinary

namespace QueueingEditor

open PdfBinary

/-- Every queued operation is applied to what it was queued for. -/
def Addressed (σ : QueueingEditor) : Prop := ∀ op ∈ σ.operations, Addresses σ.binary op

instance (σ : QueueingEditor) : Decidable (Addressed σ) :=
  inferInstanceAs (Decidable (∀ op ∈ σ.operations, Addresses σ.binary op))

/-- No queued operation has a page number that the step gives to another page. -/
def soundOperation (σ : QueueingEditor) : PageOperation → Prop
  | .add afterPage _ _ _ => ∀ op ∈ σ.operations,
    op.pageNumber < addPosition σ.binary afterPage ∨ σ.binary.length + 1 < op.pageNumber
  | .copy _ insertAfter _ => ∀ op ∈ σ.operations,
    op.pageNumber < copyPosition σ.binary insertAfter ∨ σ.binary.length + 1 < op.pageNumber
  | .delete pageNumber => ∀ op ∈ σ.operations,
    op.pageNumber < pageNumber ∨ σ.binary.length < op.pageNumber ∨
      pageNumber = σ.binary.length
  | .move fromPage toPage => fromPage = toPage ∨ ∀ op ∈ σ.operations,
    op.pageNumber < min fromPage toPage ∨ max fromPage toPage < op.pageNumber
  | .rotate .. | .resize .. => True

def soundStep (σ : QueueingEditor) : QueueingAction → Prop
  | .pageOperation operation => soundOperation σ operation
  | .adopt binary => ∀ op ∈ σ.operations, Addresses binary op
  | _ => True

instance (σ : QueueingEditor) : ∀ operation, Decidable (soundOperation σ operation)
  | .add afterPage _ _ _ => inferInstanceAs (Decidable (∀ op ∈ σ.operations,
    op.pageNumber < addPosition σ.binary afterPage ∨ σ.binary.length + 1 < op.pageNumber))
  | .copy _ insertAfter _ => inferInstanceAs (Decidable (∀ op ∈ σ.operations,
    op.pageNumber < copyPosition σ.binary insertAfter ∨ σ.binary.length + 1 < op.pageNumber))
  | .delete pageNumber => inferInstanceAs (Decidable (∀ op ∈ σ.operations,
    op.pageNumber < pageNumber ∨ σ.binary.length < op.pageNumber ∨
      pageNumber = σ.binary.length))
  | .move fromPage toPage => inferInstanceAs (Decidable (fromPage = toPage ∨
    ∀ op ∈ σ.operations,
      op.pageNumber < min fromPage toPage ∨ max fromPage toPage < op.pageNumber))
  | .rotate .. | .resize .. => .isTrue trivial

instance (σ : QueueingEditor) : ∀ a, Decidable (soundStep σ a)
  | .pageOperation operation => inferInstanceAs (Decidable (soundOperation σ operation))
  | .adopt binary => inferInstanceAs (Decidable (∀ op ∈ σ.operations, Addresses binary op))
  | .queueAdd .. | .queueUpdate .. | .queueDelete .. | .queueReorder .. | .bake .. =>
    .isTrue trivial

structure Inv (σ : QueueingEditor) : Prop where
  distinct : σ.binary.Distinct
  addressed : Addressed σ

/-! ## Queueing -/

section
variable {σ : QueueingEditor} {pageNumber : Nat} {elementId : String} {index : Option Nat}
  {element : AddressedElement}

/-- What is queued is addressed as it is. -/
theorem addresses_captured (distinct : σ.binary.Distinct)
    (captures : σ.captured pageNumber elementId index = some element) {op : AddressedOperation}
    (number : op.pageNumber = pageNumber) (of : op.element = element) :
    Addresses σ.binary op := by
  obtain ⟨page, at_n, onPage⟩ := Option.bind_eq_some_iff.mp captures
  cases pageNumber with
  | zero => cases at_n
  | succ i =>
    cases index with
    | none =>
      cases onPage
      apply (addresses_iff_of_page distinct at_n (by rw [of])).mpr
      refine ⟨number, ?_⟩
      rw [of]
      rfl
    | some k =>
      obtain ⟨tag, tagged, onElement⟩ := Option.bind_eq_some_iff.mp onPage
      cases onElement
      apply (addresses_iff_of_page distinct at_n (by rw [of])).mpr
      refine ⟨number, ?_⟩
      have mem := List.mem_of_getElem? tagged
      simp [of, tagged, Option.filter, mem]

/-- A queue with the element of one operation, new or merged into an old one. -/
theorem addressed_upsert (inv : Inv σ)
    (captures : σ.captured pageNumber elementId index = some element)
    {action : ElementOperationAction} {f : AddressedOperation → AddressedOperation}
    {new : AddressedOperation} (merged : ∀ op, (f op).pageNumber = op.pageNumber ∧
      (f op).element = element)
    (appended : new.pageNumber = pageNumber ∧ new.element = element) :
    ∀ op ∈ upsert (isFor action pageNumber element) f new σ.operations,
      Addresses σ.binary op := by
  intro op mem
  rcases mem_upsert mem with old | ⟨old, first, rfl⟩ | ⟨_, rfl⟩
  · exact inv.addressed op old
  · have matched := List.find?_some first
    rw [isFor, Bool.and_eq_true, Bool.and_eq_true, decide_eq_true_iff, decide_eq_true_iff]
      at matched
    exact addresses_captured inv.distinct captures ((merged old).1.trans matched.1.2)
      (merged old).2
  · exact addresses_captured inv.distinct captures appended.1 appended.2

theorem addressed_append (inv : Inv σ)
    (captures : σ.captured pageNumber elementId index = some element) {new : AddressedOperation}
    (number : new.pageNumber = pageNumber) (of : new.element = element) :
    ∀ op ∈ σ.operations ++ [new], Addresses σ.binary op := by
  intro op mem
  rcases List.mem_append.mp mem with old | added
  · exact inv.addressed op old
  · rw [List.mem_singleton.mp added]
    exact addresses_captured inv.distinct captures number of

end

/-! ## Page operations -/

section
variable {σ : QueueingEditor} {operation : PageOperation} {binary : PdfBinary}

theorem insertion_bound {doc : PdfBinary} {position : Nat}
    (bounds : 1 ≤ position ∧ position ≤ doc.length + 1) : position - 1 ≤ doc.length := by
  omega

/-- The pages after a page operation are different again. -/
theorem distinct_runOperation (distinct : σ.binary.Distinct)
    (fresh : ∀ key ∈ operation.newKey, σ.Fresh key)
    (ran : runOperation σ.binary operation = some binary) : binary.Distinct := by
  cases operation with
  | add afterPage width height key =>
    cases ran
    exact distinct_insertIdx distinct (insertion_bound (addPosition_bounds _ _)) (fresh key rfl).1
  | delete pageNumber =>
    obtain ⟨_, ran⟩ := Option.ite_none_right_eq_some.mp ran
    cases ran
    exact distinct_eraseIdx distinct _
  | move fromPage toPage =>
    obtain ⟨⟨validFrom, validTo⟩, ran⟩ := Option.ite_none_right_eq_some.mp ran
    cases ran
    obtain ⟨lowFrom, highFrom⟩ := validFrom
    obtain ⟨lowTo, highTo⟩ := validTo
    split
    · exact distinct
    · exact distinct_move distinct (by omega) (by omega)
  | rotate pageNumber degrees mode =>
    obtain ⟨_, ran⟩ := Option.ite_none_right_eq_some.mp ran
    cases ran
    exact distinct_modify (by intro page; rfl) distinct _
  | copy pageNumber insertAfter key =>
    obtain ⟨page, _, rfl⟩ := copyPage_eq ran
    exact distinct_insertIdx distinct (insertion_bound (copyPosition_bounds _ _)) (fresh key rfl).1
  | resize pageNumber width height =>
    obtain ⟨_, ran⟩ := Option.ite_none_right_eq_some.mp ran
    cases ran
    exact distinct_modify (by intro page; rfl) distinct _

/-- After a page operation the queue is addressed exactly if the operation was sound. -/
theorem addressed_runOperation_iff (inv : Inv σ)
    (fresh : ∀ key ∈ operation.newKey, σ.Fresh key)
    (ran : runOperation σ.binary operation = some binary) :
    Addressed { σ with binary } ↔ soundOperation σ operation := by
  have each {P : AddressedOperation → Prop}
      (same : ∀ op ∈ σ.operations, Addresses binary op ↔ P op) :
      Addressed { σ with binary } ↔ ∀ op ∈ σ.operations, P op :=
    forall₂_congr same
  have always (all : ∀ op ∈ σ.operations, Addresses binary op) :
      Addressed { σ with binary } ↔ True := iff_true_intro all
  cases operation with
  | add afterPage width height key =>
    cases ran
    have bounds := addPosition_bounds σ.binary afterPage
    apply each
    intro op mem
    rw [addPage, addresses_insertIdx_iff inv.distinct (insertion_bound bounds) (fresh key rfl).1
      ((fresh key rfl).2 op mem) (inv.addressed op mem), Nat.sub_add_cancel bounds.1]
  | copy pageNumber insertAfter key =>
    obtain ⟨page, _, rfl⟩ := copyPage_eq ran
    have bounds := copyPosition_bounds σ.binary insertAfter
    apply each
    intro op mem
    rw [addresses_insertIdx_iff inv.distinct (insertion_bound bounds) (fresh key rfl).1
      ((fresh key rfl).2 op mem) (inv.addressed op mem), Nat.sub_add_cancel bounds.1]
  | delete pageNumber =>
    obtain ⟨⟨valid, _⟩, ran⟩ := Option.ite_none_right_eq_some.mp ran
    cases ran
    obtain ⟨low, high⟩ := valid
    apply each
    intro op mem
    rw [addresses_eraseIdx_iff inv.distinct (by omega) (inv.addressed op mem),
      Nat.sub_add_cancel low]
  | move fromPage toPage =>
    obtain ⟨⟨validFrom, validTo⟩, ran⟩ := Option.ite_none_right_eq_some.mp ran
    obtain ⟨lowFrom, highFrom⟩ := validFrom
    obtain ⟨lowTo, highTo⟩ := validTo
    rw [soundOperation]
    by_cases same : fromPage = toPage
    · rw [if_pos same] at ran
      cases ran
      exact iff_of_true inv.addressed (.inl same)
    · rw [if_neg same] at ran
      cases ran
      rw [or_iff_right same]
      apply each
      intro op mem
      rw [addresses_move_iff inv.distinct (by omega) (by omega) (by omega)
        (inv.addressed op mem)]
      omega
  | rotate pageNumber degrees mode =>
    obtain ⟨_, ran⟩ := Option.ite_none_right_eq_some.mp ran
    cases ran
    apply always
    intro op mem
    exact addresses_modify (by intro page; rfl) (by intro page; rfl) inv.distinct _
      (inv.addressed op mem)
  | resize pageNumber width height =>
    obtain ⟨_, ran⟩ := Option.ite_none_right_eq_some.mp ran
    cases ran
    apply always
    intro op mem
    exact addresses_modify (by intro page; rfl) (by intro page; rfl) inv.distinct _
      (inv.addressed op mem)

end

/-! ## Runs -/

/-- After a step the queue is addressed exactly if the step was sound. -/
theorem addressed_step_iff {σ σ' : QueueingEditor} {a : QueueingAction} (inv : Inv σ)
    (h : σ.step a = some σ') : Addressed σ' ↔ soundStep σ a := by
  cases a with
  | queueAdd pageNumber elementId =>
    obtain ⟨element, captures, rfl⟩ := Option.map_eq_some_iff.mp h
    exact iff_true_intro (addressed_append inv captures rfl rfl)
  | queueUpdate pageNumber elementId index oldBounds =>
    obtain ⟨element, captures, rfl⟩ := Option.map_eq_some_iff.mp h
    exact iff_true_intro (addressed_upsert inv captures (fun _ => ⟨rfl, rfl⟩) ⟨rfl, rfl⟩)
  | queueDelete pageNumber elementId index bounds =>
    obtain ⟨element, captures, rfl⟩ := Option.map_eq_some_iff.mp h
    exact iff_true_intro (addressed_append inv captures rfl rfl)
  | queueReorder pageNumber elementId index toFront =>
    obtain ⟨element, captures, rfl⟩ := Option.map_eq_some_iff.mp h
    exact iff_true_intro (addressed_upsert inv captures (fun _ => ⟨rfl, rfl⟩) ⟨rfl, rfl⟩)
  | pageOperation operation =>
    obtain ⟨fresh, h⟩ := Option.ite_none_right_eq_some.mp h
    obtain ⟨binary, ran, rfl⟩ := Option.map_eq_some_iff.mp h
    exact addressed_runOperation_iff inv fresh ran
  | adopt binary =>
    obtain ⟨_, h⟩ := Option.ite_none_right_eq_some.mp h
    cases h
    exact Iff.rfl
  | bake binary =>
    obtain ⟨_, h⟩ := Option.ite_none_right_eq_some.mp h
    cases h
    exact iff_true_intro fun _ mem => absurd mem List.not_mem_nil

theorem distinct_step {σ σ' : QueueingEditor} {a : QueueingAction} (distinct : σ.binary.Distinct)
    (h : σ.step a = some σ') : σ'.binary.Distinct := by
  cases a with
  | queueAdd | queueUpdate | queueDelete | queueReorder =>
    obtain ⟨element, _, rfl⟩ := Option.map_eq_some_iff.mp h
    exact distinct
  | pageOperation operation =>
    obtain ⟨fresh, h⟩ := Option.ite_none_right_eq_some.mp h
    obtain ⟨binary, ran, rfl⟩ := Option.map_eq_some_iff.mp h
    exact distinct_runOperation distinct fresh ran
  | adopt binary | bake binary =>
    obtain ⟨distinct', h⟩ := Option.ite_none_right_eq_some.mp h
    cases h
    exact distinct'

theorem Inv.step {σ σ' : QueueingEditor} {a : QueueingAction} (inv : Inv σ)
    (sound : soundStep σ a) (h : σ.step a = some σ') : Inv σ' :=
  ⟨distinct_step inv.distinct h, (addressed_step_iff inv h).mpr sound⟩

/-- After a flush every page operation is sound. -/
theorem soundStep_of_flushed {σ : QueueingEditor} (flushed : σ.operations = [])
    (a : QueueingAction) : soundStep σ a := by
  have none (P : AddressedOperation → Prop) : ∀ op ∈ σ.operations, P op := by
    rw [flushed]
    exact fun _ mem => absurd mem List.not_mem_nil
  cases a with
  | queueAdd | queueUpdate | queueDelete | queueReorder | bake => trivial
  | adopt binary => exact none _
  | pageOperation operation =>
    cases operation with
    | add | copy | delete => exact none _
    | move => exact .inr (none _)
    | rotate | resize => trivial

/-- Three pages with two elements each. -/
def threePages : PdfBinary :=
  [⟨1, [0, 1], 0, 612, 792⟩, ⟨2, [0, 1], 0, 612, 792⟩, ⟨3, [0, 1], 0, 612, 792⟩]

end QueueingEditor

end GigaPdf
