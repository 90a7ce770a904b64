import GigaPdf.Lib.Lockstep
import GigaPdf.Lib.Text
import GigaPdf.Lib.Traversal
import GigaPdf.Sessions.Documents

/-!
# The elements of a session

`create_element`, `update_element`, `delete_element`, `move_element` and `batch_operations`, which
edit the pages of the scene graph in place. An id is given by the caller or generated, and nothing
keeps two elements from having the same.
-/

namespace GigaPdf.Sessions

open Lockstep Traversal

/-! ## Dictionaries -/

def entry (dict : Dict) (key : List Char) : Option Json :=
  (dict.find? fun field => field.1 = key).map Prod.snd

/-- `dict[key] = value` -/
def setEntry : Dict → List Char → Json → Dict
  | [], key, value => [(key, value)]
  | field :: dict, key, value =>
    if field.1 = key then (key, value) :: dict else field :: setEntry dict key value

/-- The value as an index; `True` and `False` are integers as well. -/
def asInt : Json → Option Int
  | .literal text =>
    if text = "true".toList then some 1
    else if text = "false".toList then some 0
    else
      match text with
      | '-' :: digits => (digitsOf digits).map fun n => -(n : Int)
      | digits => (digitsOf digits).map Int.ofNat
  | _ => none
where
  digitsOf (digits : List Char) : Option Nat :=
    if digits ≠ [] ∧ digits.all Char.isDigit then
      some (digits.foldl (fun n c => 10 * n + (c.toNat - '0'.toNat)) 0)
    else none

/-! ## Elements -/

inductive ElementError
  | pageNotFound (pageNumber : Int)
  | elementNotFound (elementId : Json)
  | unknownType (type : Option Json)
  | validation (message : List Char)
  | keyError (key : List Char)
  | typeError
  | indexError

def ElementType.value : ElementType → List Char
  | ElementType.text => "text".toList
  | ElementType.image => "image".toList
  | ElementType.shape => "shape".toList
  | ElementType.annotation => "annotation".toList
  | ElementType.formField => "form_field".toList

def ElementType.named (type : Option Json) : Option ElementType :=
  match type with
  | some (.string name) =>
    [ElementType.text, ElementType.image, ElementType.shape, ElementType.annotation,
      ElementType.formField].find? fun t => t.value = name
  | _ => none

/-- `model_dump` -/
def Element.dump (element : Element) : Dict :=
  ("element_id".toList, .string element.elementId) ::
    ("type".toList, .string element.type.value) :: element.fields

/-- The classes of the elements: `construct` checks the fields. An element has the id that it is
given by the name of the field, unless it is given one by the alias as well. -/
structure ElementModels where
  construct : ElementType → Dict → Except (List Char) Element
  type_eq : ∀ {type dict element}, construct type dict = .ok element → element.type = type
  id_eq : ∀ {type dict element}, construct type dict = .ok element →
    entry dict "elementId".toList = none →
    entry dict "element_id".toList = some (.string element.elementId)

def hasId (elementId : Json) (element : Element) : Bool :=
  match elementId with
  | .string text => text = element.elementId
  | _ => false

/-- `target[part]` for all parts but the last, and then `target[last] = value`. -/
def setPath : Json → List (List Char) → Json → Except ElementError Json
  | .object dict, [last], value => .ok (.object (setEntry dict last value))
  | .object dict, part :: next :: rest, value =>
    match entry dict part with
    | none => .error (.keyError part)
    | some target =>
      (setPath target (next :: rest) value).map fun target => .object (setEntry dict part target)
  | _, _, _ => .error .typeError

def applyUpdate (dict : Dict) (update : List Char × Json) : Except ElementError Dict :=
  if update.1 ∈ ["element_id".toList, "type".toList] then .ok dict
  else if (entry dict update.1).isSome then .ok (setEntry dict update.1 update.2)
  else if '.' ∈ update.1 then
    match update.1.splitOn '.' with
    | part :: rest =>
      match entry dict part with
      | none => .error (.keyError part)
      | some target =>
        (setPath target rest update.2).map fun target => setEntry dict part target
    | [] => .ok dict
  else .ok dict

/-! ## Sessions -/

/-- The pages are numbered by their places. -/
structure ElementSession where
  sceneGraph : DocumentObject PageObject
  history : HistoryState
  numbered : ∀ (i : Nat) page, sceneGraph.pages[i]? = some page → page.pageNumber = i + 1

/-- What a call gets from the clock and from `generate_uuid`. -/
structure CallContext where
  now : Time
  uuid : List Char

inductive BatchError
  | unknownAction
  | raised (error : ElementError)

inductive BatchResult
  | created (element : Dict)
  | updated (element : Dict)
  | deleted (elementId : Option Json)
  | failed (action : Option Json) (error : BatchError)

def onElements (f : List Element → List Element) (page : PageObject) : PageObject :=
  { page with elements := f page.elements }

namespace ElementSession

variable (σ : ElementSession)

def pages : List PageObject := σ.sceneGraph.pages

def onPage (i : Nat) (f : List Element → List Element) : ElementSession where
  sceneGraph := { σ.sceneGraph with pages := σ.pages.modify i (onElements f) }
  history := σ.history
  numbered := by
    intro k page here
    rw [List.getElem?_modify] at here
    obtain ⟨old, there, rfl⟩ := Option.map_eq_some_iff.mp here
    have number := σ.numbered k old there
    split <;> exact number

def pushHistory (now : Time) (action : List Char) (affectedElements : List (List Char))
    (affectedPages : List Int) : ElementSession :=
  { σ with
    history := σ.history.pushHistory now (String.ofList action) affectedElements affectedPages }

/-- The first element with the id, and the number of its page. -/
def getElement (elementId : Json) : Option (Element × Int) :=
  σ.pages.findSome? fun page =>
    (page.elements.find? (hasId elementId)).map fun element => (element, page.pageNumber)

variable (M : ElementModels) (context : CallContext)

def createElement (pageNumber elementData : Json) : Except ElementError Element × ElementSession :=
  match asInt pageNumber with
  | none => (.error .typeError, σ)
  | some number =>
    if number < 1 ∨ σ.pages.length < number then (.error (.pageNotFound number), σ)
    else
      match elementData with
      | .object given =>
        let data :=
          if (entry given "element_id".toList).isSome then given
          else setEntry given "element_id".toList (.string context.uuid)
        match ElementType.named (entry data "type".toList) with
        | none => (.error (.unknownType (entry data "type".toList)), σ)
        | some type =>
          match M.construct type data with
          | .error message => (.error (.validation message), σ)
          | .ok element =>
            (.ok element,
              (σ.onPage (number - 1).toNat (· ++ [element])).pushHistory context.now
                ("Created ".toList ++ type.value ++ " element".toList) [element.elementId] [number])
      | _ => (.error .typeError, σ)

def updateElement (elementId updates : Json) : Except ElementError Element × ElementSession :=
  match elementId, σ.getElement elementId with
  | .string id, some (element, pageNumber) =>
    match position σ.pages.length (pageNumber - 1) with
    | none => (.error .indexError, σ)
    | some i =>
      match (σ.pages[i]?).bind fun page => page.elements.findIdx? (hasId elementId) with
      | none => (.error (.elementNotFound elementId), σ)
      | some elementIndex =>
        match updates with
        | .object updates =>
          match updates.foldlM applyUpdate element.dump with
          | .error error => (.error error, σ)
          | .ok elementDict =>
            match M.construct element.type elementDict with
            | .error message => (.error (.validation message), σ)
            | .ok updatedElement =>
              (.ok updatedElement,
                (σ.onPage i (·.set elementIndex updatedElement)).pushHistory context.now
                  ("Updated element ".toList ++ id) [id] [pageNumber])
        | _ => (.error .typeError, σ)
  | _, _ => (.error (.elementNotFound elementId), σ)

def deleteElement (elementId : Json) : Except ElementError Unit × ElementSession :=
  match elementId, σ.getElement elementId with
  | .string id, some (_, pageNumber) =>
    match position σ.pages.length (pageNumber - 1) with
    | none => (.error .indexError, σ)
    | some i =>
      (.ok (),
        (σ.onPage i (·.filter fun e => !hasId elementId e)).pushHistory context.now
          ("Deleted element ".toList ++ id) [id] [pageNumber])
  | _, _ => (.error (.elementNotFound elementId), σ)

/-- The element that a move puts on the target page. `newBounds` are the bounds as they are dumped. -/
def movedElement (element : Element) (newBounds : Option Dict) : Except (List Char) Element :=
  match newBounds with
  | none => .ok element
  | some bounds => M.construct element.type (setEntry element.dump "bounds".toList (.object bounds))

def moveElement (id : List Char) (targetPage : Int) (newBounds : Option Dict) :
    Except ElementError Element × ElementSession :=
  if targetPage < 1 ∨ σ.pages.length < targetPage then (.error (.pageNotFound targetPage), σ)
  else
    match σ.getElement (.string id) with
    | none => (.error (.elementNotFound (.string id)), σ)
    | some (element, sourcePage) =>
      match position σ.pages.length (sourcePage - 1) with
      | none => (.error .indexError, σ)
      | some i =>
        -- The element is gone from its page before its bounds are checked.
        let removed := σ.onPage i (·.filter fun e => !hasId (.string id) e)
        match movedElement M element newBounds with
        | .error message => (.error (.validation message), removed)
        | .ok element =>
          (.ok element,
            (removed.onPage (targetPage - 1).toNat (· ++ [element])).pushHistory context.now
              (s!"Moved element from page {sourcePage} to {targetPage}".toList) [id]
              [sourcePage, targetPage])

/-- One operation of a batch: whatever it raises becomes its result. -/
def batchOperation (op : Dict) : BatchResult × ElementSession :=
  let action := entry op "action".toList
  let elementId := (entry op "element_id".toList).getD .null
  let pageNumber := (entry op "page_number".toList).getD .null
  let data := (entry op "data".toList).getD (.object [])
  match action with
  | some (.string name) =>
    if name = "create".toList then
      match σ.createElement M context pageNumber data with
      | (.ok element, τ) => (.created element.dump, τ)
      | (.error error, τ) => (.failed action (.raised error), τ)
    else if name = "update".toList then
      match σ.updateElement M context elementId data with
      | (.ok element, τ) => (.updated element.dump, τ)
      | (.error error, τ) => (.failed action (.raised error), τ)
    else if name = "delete".toList then
      match σ.deleteElement context elementId with
      | (.ok (), τ) => (.deleted (entry op "element_id".toList), τ)
      | (.error error, τ) => (.failed action (.raised error), τ)
    else (.failed action .unknownAction, σ)
  | _ => (.failed action .unknownAction, σ)

def batchOperations (σ : ElementSession) : List (CallContext × Dict) →
    List BatchResult × ElementSession
  | [] => ([], σ)
  | (context, op) :: operations =>
    let (result, τ) := σ.batchOperation M context op
    let (results, υ) := batchOperations τ operations
    (result :: results, υ)

end ElementSession

/-! ## What an operation does when it takes effect -/

namespace ElementSession

/-- One element is new, at the end of a page. -/
def Creates (σ : ElementSession) (now : Time) (new : Element) (τ : ElementSession) : Prop :=
  ∃ (i : Nat) (page : PageObject) (action : List Char) (affectedPages : List Int),
    σ.pages[i]? = some page ∧
    τ = (σ.onPage i (· ++ [new])).pushHistory now action [new.elementId] affectedPages

/-- One element with the id is another with the same id and type. -/
def Updates (σ : ElementSession) (now : Time) (elementId : Json) (new : Element)
    (τ : ElementSession) : Prop :=
  ∃ (i k : Nat) (page : PageObject) (old : Element) (action : List Char)
    (affectedPages : List Int),
    σ.pages[i]? = some page ∧ page.elements[k]? = some old ∧ hasId elementId old ∧
    new.elementId = old.elementId ∧ new.type = old.type ∧
    τ = (σ.onPage i (·.set k new)).pushHistory now action [old.elementId] affectedPages

/-- A page that has had elements with the id has none. -/
def Deletes (σ : ElementSession) (now : Time) (elementId : Json) (τ : ElementSession) : Prop :=
  ∃ (i : Nat) (page : PageObject) (old : Element) (action : List Char)
    (affectedPages : List Int),
    σ.pages[i]? = some page ∧ old ∈ page.elements ∧ hasId elementId old ∧
    τ = (σ.onPage i (·.filter fun e => !hasId elementId e)).pushHistory now action
      [old.elementId] affectedPages

/-- One element with the id is gone from its page, and stands with the same id and type at the end
of the target page. -/
def Moves (σ : ElementSession) (now : Time) (id : List Char) (targetPage : Int) (new : Element)
    (τ : ElementSession) : Prop :=
  ∃ (i k : Nat) (page : PageObject) (old : Element) (action : List Char)
    (affectedPages : List Int),
    σ.pages[i]? = some page ∧ page.elements[k]? = some old ∧ old.elementId = id ∧
    new.elementId = id ∧ new.type = old.type ∧
    τ = ((σ.onPage i (·.eraseIdx k)).onPage (targetPage - 1).toNat (· ++ [new])).pushHistory now
      action [id] affectedPages

/-- The result of an operation of a batch tells what the operation has done. -/
def Took (σ : ElementSession) (now : Time) (op : Dict) (τ : ElementSession) : BatchResult → Prop
  | .created element => ∃ new, element = new.dump ∧ σ.Creates now new τ
  | .updated element => ∃ new elementId, element = new.dump ∧
      entry op "element_id".toList = some elementId ∧ σ.Updates now elementId new τ
  | .deleted reported => ∃ elementId, reported = some elementId ∧
      entry op "element_id".toList = some elementId ∧ σ.Deletes now elementId τ
  | .failed _ _ => τ = σ

inductive Reports : ElementSession → List (CallContext × Dict) → List BatchResult →
    ElementSession → Prop
  | done (σ : ElementSession) : Reports σ [] [] σ
  | step {σ τ υ : ElementSession} {context : CallContext} {op : Dict} {result : BatchResult}
      {operations : List (CallContext × Dict)} {results : List BatchResult}
      (took : σ.Took context.now op τ result) (rest : Reports τ operations results υ) :
      Reports σ ((context, op) :: operations) (result :: results) υ

end ElementSession

inductive ElementRequest
  | create (pageNumber elementData : Json)
  | update (elementId updates : Json)
  | delete (elementId : Json)
  | move (id : List Char) (targetPage : Int) (newBounds : Option Dict)
  | batch (operations : List (CallContext × Dict))

namespace ElementSession

/-- What raises has changed nothing, and what returns has changed what it is about. -/
def Outcome {α : Type} (σ : ElementSession) (took : α → ElementSession → Prop) :
    Except ElementError α × ElementSession → Prop
  | (.ok a, τ) => took a τ
  | (.error _, τ) => τ = σ

def Sound (M : ElementModels) (σ : ElementSession) (context : CallContext) : ElementRequest → Prop
  | .create pageNumber elementData =>
    σ.Outcome (σ.Creates context.now) (σ.createElement M context pageNumber elementData)
  | .update elementId updates =>
    σ.Outcome (σ.Updates context.now elementId) (σ.updateElement M context elementId updates)
  | .delete elementId =>
    σ.Outcome (fun _ => σ.Deletes context.now elementId) (σ.deleteElement context elementId)
  | .move id targetPage newBounds =>
    σ.Outcome (σ.Moves context.now id targetPage)
      (σ.moveElement M context id targetPage newBounds)
  | .batch operations =>
    Reports σ operations (σ.batchOperations M operations).1 (σ.batchOperations M operations).2

/-- How many elements of a page have the id. -/
def bearers (σ : ElementSession) (pageNumber : Int) (id : List Char) : Nat :=
  ((σ.pages[(pageNumber - 1).toNat]?).elim [] PageObject.elements).countP (hasId (.string id))

/-- The element is the only one of its page with its id, and its class accepts the new bounds. -/
def Movable (M : ElementModels) (σ : ElementSession) (id : List Char) (targetPage : Int)
    (newBounds : Option Dict) : Prop :=
  1 ≤ targetPage → targetPage ≤ σ.pages.length → ∀ element sourcePage,
    σ.getElement (.string id) = some (element, sourcePage) →
    σ.bearers sourcePage id = 1 ∧ ∀ bounds, newBounds = some bounds →
      ∃ moved, M.construct element.type
        (setEntry element.dump "bounds".toList (.object bounds)) = .ok moved

def Fits (M : ElementModels) (σ : ElementSession) : ElementRequest → Prop
  | .move id targetPage newBounds => σ.Movable M id targetPage newBounds
  | _ => True

end ElementSession

/-! ## Ids -/

theorem entry_setEntry_ne {dict : Dict} {key other : List Char} {value : Json}
    (different : key ≠ other) : entry (setEntry dict key value) other = entry dict other := by
  induction dict with
  | nil => simp [setEntry, entry, different]
  | cons field dict ih =>
    rw [setEntry]
    split
    · rename_i same
      subst same
      simp [entry, different]
    · unfold entry at ih ⊢
      rw [List.find?_cons, List.find?_cons]
      split
      · rfl
      · exact ih

/-- The dictionary is that of an element with the id. -/
def Identified (id : List Char) (dict : Dict) : Prop :=
  entry dict "element_id".toList = some (.string id) ∧ entry dict "elementId".toList = none

theorem Element.dump_identified (element : Element) :
    Identified element.elementId element.dump := by
  have absent : element.fields.find? (fun field => field.1 = "elementId".toList) = none :=
    List.find?_eq_none.mpr fun field mem here =>
      (element.named field mem).2.1 (of_decide_eq_true here)
  refine ⟨rfl, ?_⟩
  rw [entry, Element.dump, List.find?_cons_of_neg (by simp), List.find?_cons_of_neg (by simp),
    absent]
  rfl

theorem setEntry_identified {id key : List Char} {dict : Dict} {value : Json}
    (identified : Identified id dict) (kept : key ≠ "element_id".toList)
    (known : key ≠ "elementId".toList) : Identified id (setEntry dict key value) :=
  ⟨(entry_setEntry_ne kept).trans identified.1, (entry_setEntry_ne known).trans identified.2⟩

theorem setPath_string (text : List Char) (parts : List (List Char)) (value : Json) :
    setPath (.string text) parts value = .error .typeError := by
  cases parts with
  | nil => rfl
  | cons part rest => cases rest <;> rfl

/-- An entry that is there, or that has something under it, is neither the id nor its alias. -/
theorem applyUpdate_identified {id : List Char} (dict : Dict) (update : List Char × Json)
    (dict' : Dict) (identified : Identified id dict) (applied : applyUpdate dict update = .ok dict') :
    Identified id dict' := by
  unfold applyUpdate at applied
  split at applied
  · cases applied
    exact identified
  · rename_i free
    split at applied
    · rename_i known
      cases applied
      apply setEntry_identified identified
      · intro same
        exact free (same ▸ List.mem_cons_self ..)
      · intro same
        rw [same, identified.2] at known
        cases known
    · split at applied
      · split at applied
        · rename_i part rest pieces
          split at applied
          · cases applied
          · rename_i target found
            obtain ⟨changed, path, rfl⟩ := Traversal.map_eq_ok_iff.mp applied
            apply setEntry_identified identified
            · rintro rfl
              cases identified.1.symm.trans found
              rw [setPath_string] at path
              cases path
            · rintro rfl
              cases identified.2.symm.trans found
        · cases applied
          exact identified
      · cases applied
        exact identified

theorem applyUpdates_identified {element : Element} {updates dict : Dict}
    (applied : updates.foldlM applyUpdate element.dump = .ok dict) :
    Identified element.elementId dict :=
  foldlM_invariant applyUpdate_identified element.dump_identified applied

theorem ElementModels.construct_keeps (M : ElementModels) {type : ElementType} {id : List Char}
    {dict : Dict} {element : Element} (identified : Identified id dict)
    (constructed : M.construct type dict = .ok element) :
    element.elementId = id ∧ element.type = type := by
  have given := M.id_eq constructed identified.2
  rw [identified.1] at given
  cases given
  exact ⟨rfl, M.type_eq constructed⟩

/-! ## Single operations -/

namespace ElementSession

variable {M : ElementModels} {σ : ElementSession} {context : CallContext}

/-- The element that is found is the first with the id on its page. -/
theorem getElement_spec {elementId : Json} {element : Element} {pageNumber : Int}
    (found : σ.getElement elementId = some (element, pageNumber)) :
    ∃ (i : Nat) (page : PageObject), σ.pages[i]? = some page ∧ pageNumber = i + 1 ∧
      position σ.pages.length (pageNumber - 1) = some i ∧
      page.elements.find? (hasId elementId) = some element := by
  obtain ⟨page, mem, here⟩ := List.exists_of_findSome?_eq_some found
  obtain ⟨first, is_first, same⟩ := Option.map_eq_some_iff.mp here
  cases same
  obtain ⟨i, place⟩ := List.mem_iff_getElem?.mp mem
  have number := σ.numbered i page place
  have bound := (List.getElem?_eq_some_iff.mp place).1
  exact ⟨i, page, place, number, by rw [number, position_number bound], is_first⟩

theorem hasId_string {id : List Char} {element : Element} :
    hasId (.string id) element = true ↔ element.elementId = id := by
  rw [hasId, decide_eq_true_iff, eq_comm]

theorem createElement_outcome (M : ElementModels) (σ : ElementSession) (context : CallContext)
    (pageNumber elementData : Json) :
    σ.Outcome (σ.Creates context.now) (σ.createElement M context pageNumber elementData) := by
  simp only [createElement]
  split
  · rfl
  · rename_i number read
    split
    · rfl
    · rename_i inside
      split
      · split
        · rfl
        · split
          · rfl
          · have bound : (number - 1).toNat < σ.pages.length := by omega
            exact ⟨(number - 1).toNat, _, _, _, List.getElem?_eq_getElem bound, rfl⟩
      · rfl

theorem updateElement_outcome (M : ElementModels) (σ : ElementSession) (context : CallContext)
    (elementId updates : Json) :
    σ.Outcome (σ.Updates context.now elementId) (σ.updateElement M context elementId updates) := by
  simp only [updateElement]
  split
  · rename_i id element pageNumber found
    obtain ⟨i, page, place, number, index, first⟩ := getElement_spec found
    simp only [index, place, Option.bind_some]
    split
    · rfl
    · rename_i k at_k
      have here : page.elements[k]? = some element := by
        rw [← first, List.find?_eq_getElem?_findIdx,
          (List.findIdx?_eq_some_iff_findIdx_eq.mp at_k).2]
      have named := List.find?_some first
      split
      · split
        · rfl
        · rename_i dict applied
          split
          · rfl
          · rename_i updated constructed
            obtain ⟨same_id, same_type⟩ :=
              M.construct_keeps (applyUpdates_identified applied) constructed
            cases hasId_string.mp named
            exact ⟨i, k, page, element, _, _, place, here, named, same_id, same_type, rfl⟩
      · rfl
  · rfl

theorem deleteElement_outcome (σ : ElementSession) (context : CallContext) (elementId : Json) :
    σ.Outcome (fun _ => σ.Deletes context.now elementId)
      (σ.deleteElement context elementId) := by
  simp only [deleteElement]
  split
  · rename_i id element pageNumber found
    obtain ⟨i, page, place, number, index, first⟩ := getElement_spec found
    have named := List.find?_some first
    simp only [index]
    cases hasId_string.mp named
    exact ⟨i, page, element, _, _, place, List.mem_of_find?_eq_some first, named, rfl⟩
  · rfl

/-! ## Moves -/

theorem filter_eq_eraseIdx_findIdx {α : Type} {p : α → Bool} {l : List α}
    (once : l.countP p = 1) : (l.filter fun a => !p a) = l.eraseIdx (l.findIdx p) := by
  induction l with
  | nil => rfl
  | cons a l ih =>
    rw [List.countP_cons] at once
    rw [List.findIdx_cons]
    cases here : p a with
    | true =>
      have rest : l.countP p = 0 := by
        rw [here] at once
        simpa using once
      have kept : (l.filter fun a => !p a) = l := by
        apply List.filter_eq_self.mpr
        intro b mem
        simpa using List.countP_eq_zero.mp rest b mem
      simp [here, kept]
    | false =>
      have rest : l.countP p = 1 := by
        rw [here] at once
        simpa using once
      simp [here, ih rest]

/-- The number of elements on all pages. -/
def size (σ : ElementSession) : Nat := (σ.pages.map fun page => page.elements.length).sum

theorem size_onPage {i : Nat} {page : PageObject} (place : σ.pages[i]? = some page)
    (f : List Element → List Element) :
    (σ.onPage i f).size + page.elements.length = σ.size + (f page.elements).length := by
  have pages : (σ.onPage i f).pages = σ.pages.modify i (onElements f) := rfl
  rw [size, size, pages]
  clear pages
  generalize σ.pages = pages at place
  induction pages generalizing i with
  | nil => cases place
  | cons first rest ih =>
    cases i with
    | zero =>
      cases place
      simp [onElements]
      omega
    | succ i =>
      have tail := ih place
      simp only [List.modify_succ_cons, List.map_cons, List.sum_cons]
      omega

theorem size_pushHistory (now : Time) (action : List Char) (affectedElements : List (List Char))
    (affectedPages : List Int) :
    (σ.pushHistory now action affectedElements affectedPages).size = σ.size := rfl

theorem onPage_congr {i : Nat} {page : PageObject} (place : σ.pages[i]? = some page)
    {f g : List Element → List Element} (same : f page.elements = g page.elements) :
    σ.onPage i f = σ.onPage i g := by
  have pages : σ.pages.modify i (onElements f) = σ.pages.modify i (onElements g) := by
    apply List.ext_getElem?
    intro k
    rw [List.getElem?_modify, List.getElem?_modify]
    by_cases here : i = k
    · subst here
      simp [place, onElements, same]
    · simp [here]
  simp only [onPage, pages]

theorem length_pages_onPage (i : Nat) (f : List Element → List Element) :
    (σ.onPage i f).pages.length = σ.pages.length :=
  List.length_modify _ _ _

theorem size_append (σ : ElementSession) {i : Nat} (bound : i < σ.pages.length) (new : Element) :
    (σ.onPage i (· ++ [new])).size = σ.size + 1 := by
  have added := size_onPage (List.getElem?_eq_getElem bound) (· ++ [new])
  rw [List.length_append, List.length_singleton] at added
  omega

theorem size_filter {i : Nat} {page : PageObject} (place : σ.pages[i]? = some page)
    (p : Element → Bool) :
    (σ.onPage i (·.filter fun e => !p e)).size + page.elements.countP p = σ.size := by
  have removed := size_onPage place (·.filter fun e => !p e)
  have split := List.length_eq_countP_add_countP p (l := page.elements)
  have rest : (page.elements.filter fun e => !p e).length =
      page.elements.countP fun e => decide ¬p e = true := by
    rw [← List.countP_eq_length_filter]
    congr 1
    funext e
    cases p e <;> rfl
  omega

/-- A move leaves as many elements as there were. -/
theorem Moves.size {now : Time} {id : List Char} {targetPage : Int} {new : Element}
    {τ : ElementSession} (bound : (targetPage - 1).toNat < σ.pages.length)
    (moves : σ.Moves now id targetPage new τ) : τ.size = σ.size := by
  obtain ⟨i, k, page, old, action, affectedPages, place, here, -, -, -, rfl⟩ := moves
  have inside := (List.getElem?_eq_some_iff.mp here).1
  have erased := size_onPage place (·.eraseIdx k)
  have added := size_append (σ.onPage i (·.eraseIdx k))
    (by rwa [length_pages_onPage]) new
  rw [List.length_eraseIdx_of_lt inside] at erased
  have total : (((σ.onPage i (·.eraseIdx k)).onPage (targetPage - 1).toNat
    (· ++ [new])).pushHistory now action [id] affectedPages).size = _ := added
  omega

theorem movedElement_keeps {element new : Element} {newBounds : Option Dict}
    (moved : movedElement M element newBounds = .ok new) :
    new.elementId = element.elementId ∧ new.type = element.type := by
  cases newBounds with
  | none =>
    cases moved
    exact ⟨rfl, rfl⟩
  | some bounds =>
    exact M.construct_keeps
      (setEntry_identified element.dump_identified (by decide) (by decide)) moved

theorem movedElement_isOk {element : Element} {newBounds : Option Dict} :
    (∃ new, movedElement M element newBounds = .ok new) ↔ ∀ bounds, newBounds = some bounds →
      ∃ new, M.construct element.type
        (setEntry element.dump "bounds".toList (.object bounds)) = .ok new := by
  cases newBounds with
  | none => simp [movedElement]
  | some bounds => simp [movedElement]

theorem bearers_number {i : Nat} {page : PageObject} (σ : ElementSession)
    (place : σ.pages[i]? = some page) (id : List Char) :
    σ.bearers (i + 1) id = page.elements.countP (hasId (.string id)) := by
  have start : ((i : Int) + 1 - 1).toNat = i := by omega
  rw [bearers, start, place]
  rfl

theorem movable_iff {id : List Char} {targetPage sourcePage : Int} {newBounds : Option Dict}
    {element : Element} (low : 1 ≤ targetPage) (high : targetPage ≤ σ.pages.length)
    (found : σ.getElement (.string id) = some (element, sourcePage)) :
    σ.Movable M id targetPage newBounds ↔
      σ.bearers sourcePage id = 1 ∧ ∃ new, movedElement M element newBounds = .ok new := by
  rw [movedElement_isOk]
  constructor
  · intro movable
    exact movable low high element sourcePage found
  · rintro both _ _ element' sourcePage' found'
    cases found.symm.trans found'
    exact both

theorem moveElement_outcome_iff (id : List Char) (targetPage : Int) (newBounds : Option Dict) :
    σ.Outcome (σ.Moves context.now id targetPage)
      (σ.moveElement M context id targetPage newBounds) ↔
        σ.Movable M id targetPage newBounds := by
  by_cases outside : targetPage < 1 ∨ σ.pages.length < targetPage
  · have refused : σ.Movable M id targetPage newBounds := fun low high => by omega
    simp only [moveElement, if_pos outside]
    exact iff_of_true rfl refused
  simp only [moveElement, if_neg outside]
  cases found : σ.getElement (.string id) with
  | none =>
    apply iff_of_true rfl
    intro _ _ element sourcePage here
    rw [found] at here
    cases here
  | some located =>
    obtain ⟨element, sourcePage⟩ := located
    obtain ⟨i, page, place, number, index, first⟩ := getElement_spec found
    have own := hasId_string.mp (List.find?_some first)
    have bound : (targetPage - 1).toNat < σ.pages.length := by omega
    have counted := σ.bearers_number place id
    rw [← number] at counted
    have some_bearer : 0 < page.elements.countP (hasId (.string id)) :=
      List.countP_pos_iff.mpr ⟨element, List.mem_of_find?_eq_some first, List.find?_some first⟩
    have removed := size_filter place (hasId (.string id))
    rw [movable_iff (by omega) (by omega) found, counted]
    simp only [index]
    cases moved : movedElement M element newBounds with
    | error message =>
      apply iff_of_false
      · intro unchanged
        have same := congrArg size unchanged
        omega
      · rintro ⟨-, new, accepted⟩
        cases accepted
    | ok new =>
      obtain ⟨same_id, same_type⟩ := movedElement_keeps moved
      have added := size_append (σ.onPage i (·.filter fun e => !hasId (.string id) e))
        (by rwa [length_pages_onPage]) new
      constructor
      · intro moves
        have kept := Moves.size bound moves
        rw [size_pushHistory] at kept
        exact ⟨by omega, new, rfl⟩
      · rintro ⟨once, -⟩
        have here : page.elements[page.elements.findIdx (hasId (.string id))]? = some element := by
          rw [← List.find?_eq_getElem?_findIdx, first]
        have alone : σ.onPage i (·.filter fun e => !hasId (.string id) e) =
            σ.onPage i (·.eraseIdx (page.elements.findIdx (hasId (.string id)))) :=
          onPage_congr place (filter_eq_eraseIdx_findIdx once)
        rw [alone]
        exact ⟨i, _, page, element, _, _, place, here, own, same_id.trans own, same_type, rfl⟩

/-! ## Batches -/

/-- An id that an element has was given. -/
theorem given_of_hasId {elementId : Option Json} {element : Element}
    (named : hasId (elementId.getD .null) element = true) :
    elementId = some (elementId.getD .null) := by
  cases elementId with
  | none => cases named
  | some given => rfl

theorem batchOperation_took (op : Dict) :
    σ.Took context.now op (σ.batchOperation M context op).2
      (σ.batchOperation M context op).1 := by
  simp only [batchOperation]
  split
  · rename_i name action
    split
    · have outcome := createElement_outcome M σ context
        ((entry op "page_number".toList).getD .null) ((entry op "data".toList).getD (.object []))
      split
      · rename_i new τ created
        rw [created] at outcome
        exact ⟨new, rfl, outcome⟩
      · rename_i error τ raised
        rw [raised] at outcome
        exact outcome
    · split
      · have outcome := updateElement_outcome M σ context
          ((entry op "element_id".toList).getD .null) ((entry op "data".toList).getD (.object []))
        split
        · rename_i new τ updated
          rw [updated] at outcome
          have ⟨_, _, _, _, _, _, _, _, named, _⟩ := outcome
          exact ⟨new, _, rfl, given_of_hasId named, outcome⟩
        · rename_i error τ raised
          rw [raised] at outcome
          exact outcome
      · split
        · have outcome := deleteElement_outcome σ context
            ((entry op "element_id".toList).getD .null)
          split
          · rename_i τ deleted
            rw [deleted] at outcome
            have ⟨_, _, _, _, _, _, _, named, _⟩ := outcome
            exact ⟨_, given_of_hasId named, given_of_hasId named, outcome⟩
          · rename_i error τ raised
            rw [raised] at outcome
            exact outcome
        · rfl
  · rfl

theorem batchOperations_report (σ : ElementSession) (operations : List (CallContext × Dict)) :
    Reports σ operations (σ.batchOperations M operations).1 (σ.batchOperations M operations).2 := by
  induction operations generalizing σ with
  | nil => exact .done σ
  | cons op operations ih => exact .step (batchOperation_took op.2) (ih _)

/-- An operation that raises changes nothing, and one that returns changes its element alone, unless
an element is moved whose id another one of its page has, or whose new bounds are refused. -/
theorem sound_iff (M : ElementModels) (σ : ElementSession) (context : CallContext)
    (request : ElementRequest) : σ.Sound M context request ↔ σ.Fits M request := by
  cases request with
  | create pageNumber elementData =>
    exact iff_of_true (createElement_outcome M σ context pageNumber elementData) trivial
  | update elementId updates =>
    exact iff_of_true (updateElement_outcome M σ context elementId updates) trivial
  | delete elementId => exact iff_of_true (deleteElement_outcome σ context elementId) trivial
  | move id targetPage newBounds => exact moveElement_outcome_iff id targetPage newBounds
  | batch operations => exact iff_of_true (batchOperations_report σ operations) trivial

/-- Classes that accept every dictionary with an id. -/
def plainModels : ElementModels where
  construct type dict :=
    match entry dict "element_id".toList, entry dict "elementId".toList with
    | some (.string id), none =>
      .ok
        { elementId := id
          type := type
          fields := dict.filter fun field => field.1 ≠ "element_id".toList ∧
            field.1 ≠ "elementId".toList ∧ field.1 ≠ "type".toList
          named := fun field mem => of_decide_eq_true (List.mem_filter.mp mem).2 }
    | _, _ => .error "Field required".toList
  type_eq constructed := by
    split at constructed
    · cases constructed
      rfl
    · cases constructed
  id_eq constructed _ := by
    split at constructed
    · rename_i id given _
      cases constructed
      exact given
    · cases constructed

def textNamed (id : List Char) : Element := ⟨id, .text, [], noFields_named⟩

def blankPage (pageId : String) (pageNumber : Int) (elements : List Element) : PageObject where
  pageId := pageId
  pageNumber := pageNumber
  dimensions := ⟨612, 792, 0⟩
  mediaBox := ⟨0, 0, 612, 792⟩
  cropBox := none
  elements := elements
  preview := none

/-- Two texts of one page have the same id. -/
def sameIds : ElementSession where
  sceneGraph :=
    { documentId := "d1"
      metadata := ⟨2, .null⟩
      pages := [blankPage "p1" 1 [textNamed "e1".toList, textNamed "e1".toList],
        blankPage "p2" 2 []]
      outlines := []
      namedDestinations := []
      embeddedFiles := []
      layers := [] }
  history := ⟨-1, [], 100⟩
  numbered := by
    intro i page here
    match i, here with
    | 0, here => cases here; rfl
    | 1, here => cases here; rfl

/-- The move takes both from their page, and puts one on the target page. -/
theorem moveElement_loses_element :
    ¬∀ (M : ElementModels) (σ : ElementSession) (context : CallContext)
      (request : ElementRequest), σ.Sound M context request := by
  intro claim
  have sound := claim plainModels sameIds ⟨0, "u1".toList⟩ (.move "e1".toList 2 none)
  have movable : sameIds.Movable plainModels "e1".toList 2 none :=
    (moveElement_outcome_iff "e1".toList 2 none).mp sound
  have alone := (movable (by decide) (by decide) (textNamed "e1".toList) 1 rfl).1
  exact absurd alone (by decide)

end ElementSession

end GigaPdf.Sessions
