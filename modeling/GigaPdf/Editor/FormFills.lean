import GigaPdf.Editor.SceneGraph
import GigaPdf.Lib.Coalescing
import Mathlib.Data.List.Sort

/-!
# Filling form fields

Phase 3 of `applyOperations`. The values of the queued updates are collected in an object, one for
each field, and each is given to the setter of its kind of field; a field that cannot be filled is
added as an element. Every field gets one call, and a setter changes no other field, so that what
the document takes does not depend on the calls before.
-/

namespace GigaPdf

open Coalescing

/-! ## The values -/

/-- A key that is the index of an array: its digits, with no zero in front. -/
def arrayIndex (key : String) : Option Nat :=
  let digits := key.toList
  let n := digits.foldl (fun n c => 10 * n + (c.toNat - '0'.toNat)) 0
  if digits ≠ [] ∧ digits.all Char.isDigit ∧ (digits.head? = some '0' → digits = ['0']) ∧
      n < 2 ^ 32 - 1 then some n
  else none

/-- `Object.entries`: indices come first, in ascending order, and then the other keys as they were
first assigned. -/
def objectEntries {β : Type} (assigned : List (String × β)) : List (String × β) :=
  ((assigned.filter fun e => (arrayIndex e.1).isSome).insertionSort fun e e' =>
      (arrayIndex e.1).getD 0 ≤ (arrayIndex e'.1).getD 0) ++
    assigned.filter fun e => !(arrayIndex e.1).isSome

/-- `String(value)`. -/
def FieldValue.toText : FieldValue → String
  | .text value => value
  | .flag value => if value then "true" else "false"
  | .choices values => ",".intercalate values

/-! ## The setters -/

inductive FieldKind
  | text | checkbox | radio | combo | list | pushbutton | signature | unknown
deriving DecidableEq

inductive FormCall
  | setTextField (fieldName value : String)
  | setCheckbox (fieldName : String) (checked : Bool)
  | setCheckboxState (fieldName state : String)
  | setRadio (fieldName selected : String)
  | setChoice (fieldName : String) (choices : List String)
deriving DecidableEq

def FormCall.fieldName : FormCall → String
  | setTextField name _ | setCheckbox name _ | setCheckboxState name _ | setRadio name _
  | setChoice name _ => name

/-- The document after the add pass: its fields, whether the engine has `setCheckboxState`, and
which calls it answers with `true`. -/
structure FormHandle where
  fields : List (String × FieldKind)
  hasCheckboxState : Bool
  takes : FormCall → Bool

structure HandleFillResult where
  fieldName : String
  success : Bool
  error : Option String
deriving DecidableEq

namespace FormHandle

variable (handle : FormHandle)

/-- `""`, `false` and `Off` uncheck every widget; any other text but `true` is a named state. -/
def checkboxCall (name : String) (value : FieldValue) : FormCall :=
  let set (state : String) : FormCall :=
    if state = "" ∨ state.toLower = "off" ∨ state.toLower = "false" then
      if handle.hasCheckboxState then .setCheckboxState name "Off" else .setCheckbox name false
    else if state.toLower = "true" then .setCheckbox name true
    else if handle.hasCheckboxState then .setCheckboxState name state
    else .setCheckbox name true
  match value with
  | .flag checked => .setCheckbox name checked
  | .text state => set state
  | .choices states => set (states.headD "")

def choicesOf : FieldValue → List String
  | .choices values => values
  | value => [value.toText]

/-- One field: the call that is made, and the result. Nothing selected in a radio group is a success
without a call. -/
def fillOne (name : String) (value : FieldValue) : Option FormCall × HandleFillResult :=
  let answer (call : FormCall) : Option FormCall × HandleFillResult :=
    (some call, ⟨name, handle.takes call,
      if handle.takes call then none else some "Engine rejected the value"⟩)
  match lastOf handle.fields name with
  | none | some .unknown => (none, ⟨name, false, some "Field not found"⟩)
  | some .text => answer (.setTextField name value.toText)
  | some .checkbox => answer (handle.checkboxCall name value)
  | some .radio =>
    if value.toText = "" then (none, ⟨name, true, none⟩) else answer (.setRadio name value.toText)
  | some .combo | some .list => answer (.setChoice name (choicesOf value))
  | some .pushbutton | some .signature =>
    (none, ⟨name, false, some "Field type not supported for filling"⟩)

/-- The setter of the field takes the value. -/
def accepts (name : String) (value : FieldValue) : Bool := (handle.fillOne name value).2.success

def applyFieldValuesOnHandle (values : List (String × FieldValue)) :
    List (Option FormCall × HandleFillResult) :=
  values.map fun v => handle.fillOne v.1 v.2

end FormHandle

/-! ## The phase -/

section
variable {ρ : Type}

/-- What a route fills. -/
def Route.filled (element : ElementRecord ρ) : Route → Option (FormFillOp ρ)
  | .fill fieldName value => some ⟨element, fieldName, value⟩
  | .inPlace _ | .fallback | .dropped => none

def queuedFill (op : ElementOp ρ) : Option (FormFillOp ρ) :=
  match op.element.body with
  | some (.formField fieldName value) => (classifyField op fieldName value).filled op.element
  | _ => none

/-- The updates that fill a field, with their pages. -/
def queuedFills (ops : List (ElementOp ρ)) : List (Nat × FormFillOp ρ) :=
  ops.filterMap fun op => (queuedFill op).map fun fill => (op.pageNumber, fill)

/-- The values by field. To assign `__proto__` makes no key. -/
def valuesOf (fills : List (Nat × FormFillOp ρ)) : List (String × FieldValue) :=
  coalesce ((fills.map fun fill => (fill.2.fieldName, fill.2.value)).filter fun v =>
    v.1 ≠ "__proto__")

/-- What the phase does: the setters that it calls, and the elements that it adds as fields. -/
structure FormFillPass (ρ : Type) where
  calls : List FormCall
  formFieldsFilled : Nat
  added : List (Nat × ElementRecord ρ)
deriving DecidableEq

/-- A field that is not filled is added as the first of its updates has it. -/
def fillPhase (handle : FormHandle) (fills : List (Nat × FormFillOp ρ)) : FormFillPass ρ :=
  let results := handle.applyFieldValuesOnHandle (objectEntries (valuesOf fills))
  { calls := results.filterMap Prod.fst
    formFieldsFilled := (results.filter fun r => r.2.success).length
    added := results.filterMap fun r =>
      if r.2.success then none
      else (fills.find? fun fill => fill.2.fieldName = r.2.fieldName).map fun fill =>
        (fill.1, fill.2.element) }

/-- The name of a form field. -/
def ElementRecord.formFieldName (e : ElementRecord ρ) : Option String :=
  match e.body with
  | some (.formField fieldName _) => some fieldName
  | _ => none

def updatesOf (name : String) (fills : List (Nat × FormFillOp ρ)) : List (Nat × FormFillOp ρ) :=
  fills.filter fun fill => fill.2.fieldName = name

/-- The last update of a field decides: its setter is called with the last value, and if it does
not take it the field is added as the last update has it. -/
structure LastValueWins (handle : FormHandle) (name : String) (last : Nat × FormFillOp ρ)
    (pass : FormFillPass ρ) : Prop where
  set : (pass.calls.filter fun call => call.fieldName = name) =
    (handle.fillOne name last.2.value).1.toList
  created : (pass.added.filter fun a => a.2.formFieldName = some name) =
    if handle.accepts name last.2.value then [] else [(last.1, last.2.element)]

/-! ## One field of the batch -/

theorem objectEntries_perm {β : Type} (assigned : List (String × β)) :
    (objectEntries assigned).Perm assigned := by
  refine (List.Perm.append_right _ (List.perm_insertionSort _ _)).trans ?_
  exact List.filter_append_perm _ assigned

/-- The order of the entries does not matter for one key. -/
theorem filter_objectEntries {β : Type} {assigned : List (String × β)} {name : String}
    {found : List (String × β)} (here : (assigned.filter fun e => e.1 = name) = found)
    (one : found.length ≤ 1) :
    ((objectEntries assigned).filter fun e => e.1 = name) = found := by
  have perm := (objectEntries_perm assigned).filter fun e => decide (e.1 = name)
  rw [here] at perm
  match found, one with
  | [], _ => exact List.perm_nil.mp perm
  | [e], _ => exact List.perm_singleton.mp perm

/-- What comes of the entries of one key, when what comes of an entry tells its key. -/
theorem filter_filterMap_key {β γ : Type} {f : String × β → Option γ} {q : γ → Bool}
    {name : String} (tells : ∀ e c, f e = some c → (q c = true ↔ e.1 = name))
    (l : List (String × β)) :
    (l.filterMap f).filter q = (l.filter fun e => e.1 = name).filterMap f := by
  rw [List.filter_filterMap, List.filterMap_filter]
  congr 1
  funext e
  cases made : f e with
  | none => simp
  | some c =>
    by_cases here : e.1 = name
    · simp [here, (tells e c made).mpr here]
    · have other : q c = false := by simpa using mt (tells e c made).mp here
      simp [here, other]

variable {handle : FormHandle} {fills : List (Nat × FormFillOp ρ)} {name : String}
  {last : Nat × FormFillOp ρ}

theorem filter_valuesOf (named : name ≠ "__proto__")
    (isLast : (updatesOf name fills).getLast? = some last) :
    ((valuesOf fills).filter fun v => v.1 = name) = [(name, last.2.value)] := by
  apply filter_coalesce_of_lastOf
  have same : ∀ fill : Nat × FormFillOp ρ,
      (decide (fill.2.fieldName = name) && decide (fill.2.fieldName ≠ "__proto__")) =
        decide (fill.2.fieldName = name) := by
    intro fill
    by_cases here : fill.2.fieldName = name <;> simp [here, named]
  rw [lastOf_eq_getLast?, List.filter_filter, List.filter_map, List.getLast?_map]
  simp only [Function.comp_def, same]
  rw [← updatesOf, isLast]
  rfl

theorem filter_valuesOf_proto (fills : List (Nat × FormFillOp ρ)) :
    ((valuesOf fills).filter fun v => v.1 = "__proto__") = [] := by
  apply List.filter_eq_nil_iff.mpr
  intro v mem here
  have key := mem_keys_coalesce.mp (List.mem_map_of_mem mem)
  obtain ⟨v', mem', same⟩ := List.mem_map.mp key
  have other := (List.mem_filter.mp mem').2
  rw [same, of_decide_eq_true here] at other
  cases other

theorem checkboxCall_fieldName (name : String) (value : FieldValue) :
    (handle.checkboxCall name value).fieldName = name := by
  have set : ∀ state : String,
      (handle.checkboxCall name (.text state)).fieldName = name := by
    intro state
    simp only [FormHandle.checkboxCall]
    split_ifs <;> rfl
  cases value with
  | text state => exact set state
  | flag checked => rfl
  | choices states => exact set (states.headD "")

/-- The call of a field and its result name the field. -/
theorem fillOne_names (name : String) (value : FieldValue) :
    (∀ call, (handle.fillOne name value).1 = some call → call.fieldName = name) ∧
      (handle.fillOne name value).2.fieldName = name := by
  have checkbox := @checkboxCall_fieldName handle name value
  simp only [FormHandle.fillOne]
  split
  · exact ⟨by simp, rfl⟩
  · exact ⟨by simp, rfl⟩
  · exact ⟨fun _ made => Option.some.inj made ▸ rfl, rfl⟩
  · exact ⟨fun _ made => Option.some.inj made ▸ checkbox, rfl⟩
  · split
    · exact ⟨by simp, rfl⟩
    · exact ⟨fun _ made => Option.some.inj made ▸ rfl, rfl⟩
  · exact ⟨fun _ made => Option.some.inj made ▸ rfl, rfl⟩
  · exact ⟨fun _ made => Option.some.inj made ▸ rfl, rfl⟩
  · exact ⟨by simp, rfl⟩
  · exact ⟨by simp, rfl⟩

/-- The setter that is called for a field. -/
theorem filter_calls (handle : FormHandle) (fills : List (Nat × FormFillOp ρ)) (name : String) :
    ((fillPhase handle fills).calls.filter fun call => call.fieldName = name) =
      ((objectEntries (valuesOf fills)).filter fun v => v.1 = name).filterMap fun v =>
        (handle.fillOne v.1 v.2).1 := by
  simp only [fillPhase, FormHandle.applyFieldValuesOnHandle, List.filterMap_map]
  apply filter_filterMap_key
  intro v call made
  simp [(fillOne_names v.1 v.2).1 call made]

/-- The elements that are added as a field. -/
theorem filter_added (handle : FormHandle) (name : String)
    (tells : ∀ fill ∈ fills, fill.2.element.formFieldName = some fill.2.fieldName) :
    ((fillPhase handle fills).added.filter fun a => a.2.formFieldName = some name) =
      ((objectEntries (valuesOf fills)).filter fun v => v.1 = name).filterMap fun v =>
        if handle.accepts v.1 v.2 then none
        else (updatesOf v.1 fills).head?.map fun fill => (fill.1, fill.2.element) := by
  simp only [fillPhase, FormHandle.applyFieldValuesOnHandle, List.filterMap_map]
  have first : ∀ v : String × FieldValue,
      (fills.find? fun fill => fill.2.fieldName = (handle.fillOne v.1 v.2).2.fieldName) =
        (updatesOf v.1 fills).head? := by
    intro v
    rw [(fillOne_names v.1 v.2).2, updatesOf, List.head?_filter]
  simp only [Function.comp_def, first]
  apply filter_filterMap_key
  intro v a made
  obtain ⟨-, made⟩ := Option.ite_none_left_eq_some.mp made
  obtain ⟨fill, found, rfl⟩ := Option.map_eq_some_iff.mp made
  obtain ⟨mem, here⟩ := List.mem_filter.mp (List.mem_of_head? found)
  simp [tells fill mem, of_decide_eq_true here]

theorem fillOne_noOp_iff (handle : FormHandle) (name : String) (value : FieldValue) :
    (handle.fillOne name value).1 = none ∧ handle.accepts name value = true ↔
      lastOf handle.fields name = some .radio ∧ value.toText = "" := by
  rw [FormHandle.accepts, FormHandle.fillOne]
  cases known : lastOf handle.fields name with
  | none => simp
  | some kind =>
    cases kind with
    | radio => by_cases empty : value.toText = "" <;> simp [empty]
    | text | checkbox | combo | list | pushbutton | signature | unknown => simp

/-- A key that an object can have: the first update of a field that is not filled counts. -/
theorem lastValueWins_of_ne (named : name ≠ "__proto__")
    (tells : ∀ fill ∈ fills, fill.2.element.formFieldName = some fill.2.fieldName)
    (isLast : (updatesOf name fills).getLast? = some last) :
    LastValueWins handle name last (fillPhase handle fills) ↔
      handle.accepts name last.2.value = true ∨
        ∃ first, (updatesOf name fills).head? = some first ∧ first.1 = last.1 ∧
          first.2.element = last.2.element := by
  have one := filter_objectEntries (filter_valuesOf named isLast) (Nat.le_refl 1)
  have calls := filter_calls handle fills name
  have added := filter_added handle name tells
  rw [one] at calls added
  have set : ((fillPhase handle fills).calls.filter fun call => call.fieldName = name) =
      (handle.fillOne name last.2.value).1.toList := by
    rw [calls]
    cases made : (handle.fillOne name last.2.value).1 <;> simp [made]
  have nonempty : updatesOf name fills ≠ [] := by
    intro nothing
    rw [nothing] at isLast
    cases isLast
  obtain ⟨first, found⟩ := Option.ne_none_iff_exists'.mp (mt List.head?_eq_none_iff.mp nonempty)
  cases accepted : handle.accepts name last.2.value with
  | true =>
    refine iff_of_true ⟨set, ?_⟩ (.inl rfl)
    simp [added, accepted]
  | false =>
    have first_added : ((fillPhase handle fills).added.filter fun a =>
        a.2.formFieldName = some name) = [(first.1, first.2.element)] := by
      simp [added, accepted, found]
    constructor
    · intro wins
      have created := wins.created
      rw [first_added, accepted] at created
      simp only [Bool.false_eq_true, if_false, List.cons.injEq, Prod.mk.injEq, and_true] at created
      exact .inr ⟨first, found, created⟩
    · rintro (absurd | ⟨other, found', page, element⟩)
      · cases absurd
      · rw [found, Option.some.injEq] at found'
        subst found'
        refine ⟨set, ?_⟩
        simp [first_added, accepted, page, element]

/-- A field of this name gets no call and is not added. -/
theorem lastValueWins_proto
    (tells : ∀ fill ∈ fills, fill.2.element.formFieldName = some fill.2.fieldName) :
    LastValueWins handle "__proto__" last (fillPhase handle fills) ↔
      lastOf handle.fields "__proto__" = some .radio ∧ last.2.value.toText = "" := by
  have nothing := filter_objectEntries (filter_valuesOf_proto fills) (Nat.zero_le 1)
  have calls := filter_calls handle fills "__proto__"
  have added := filter_added handle "__proto__" tells
  rw [nothing, List.filterMap_nil] at calls added
  rw [← fillOne_noOp_iff]
  constructor
  · intro wins
    have set := wins.set
    have created := wins.created
    rw [calls] at set
    rw [added] at created
    refine ⟨Option.toList_eq_nil_iff.mp set.symm, ?_⟩
    by_contra rejected
    rw [if_neg rejected] at created
    cases created
  · rintro ⟨no_call, accepted⟩
    refine ⟨?_, ?_⟩
    · rw [calls, no_call]
      rfl
    · rw [added, if_pos accepted]

section
variable {δ : Type} (engine : PdfEngine δ ρ) (page : PdfPage δ) (originalIndex index : Nat)
  (op : ElementOp ρ)

theorem geometryRoute_filled (pageNumber : Nat) (oldBounds bounds : Option Bounds)
    (matrix : Option AffineMatrix) :
    (geometryRoute pageNumber index originalIndex oldBounds bounds matrix).filled op.element =
      none := by
  cases matrix with
  | some m => rfl
  | none =>
    rw [geometryRoute]
    split <;> rfl

theorem classifyText_filled (content : String) (style : TextStyle) :
    (classifyText engine page originalIndex op content style index).filled op.element = none := by
  rw [classifyText]
  split
  · rfl
  · split_ifs <;> rfl

theorem classifyImage_filled (opacity : ℚ) :
    (classifyImage engine page originalIndex op opacity index).filled op.element = none := by
  rw [classifyImage]
  split
  · rfl
  · split_ifs
    · rfl
    · rfl
    · rfl
    · exact geometryRoute_filled _ _ _ _ _ _ _

theorem classifyShape_filled (style : ShapeStyle) :
    (classifyShape engine page originalIndex op style index).filled op.element = none := by
  rw [classifyShape]
  split
  · rfl
  · split_ifs
    · rfl
    · rfl
    · simp only
      split
      · rfl
      · split
        · rfl
        · exact geometryRoute_filled _ _ _ _ _ _ _
      · rfl

/-- Only an update of a form field fills one. -/
theorem classify_filled :
    (classify engine page originalIndex op).filled op.element = queuedFill op := by
  have other : op.action ≠ .update → queuedFill op = none := by
    intro other
    rw [queuedFill]
    split
    · rw [classifyField, if_neg fun h => other h.1]
      rfl
    · rfl
  rw [classify]
  split
  · rename_i add
    rw [other (by simp [add])]
    rfl
  · rename_i reorder _
    rw [other (by simp [reorder])]
    split <;> rfl
  · rename_i reorder _
    rw [other (by simp [reorder])]
    rfl
  · rw [queuedFill]
    split
    · simp only [‹op.element.body = _›]
    · rw [classifyText_filled]
      simp only [‹op.element.body = _›]
    · rw [classifyImage_filled]
      simp only [‹op.element.body = _›]
    · rw [classifyShape_filled]
      simp only [‹op.element.body = _›]
    · split
      · rename_i field _ _ _ _ _ _ body
        exact absurd body (field _ _)
      · rfl

end

/-- The updates that fill a field are the fills of the pass, with their pages. -/
theorem map_queuedFills {δ : Type} (engine : PdfEngine δ ρ) (page : PdfPage δ)
    (ops : List (ElementOp ρ)) : (queuedFills ops).map Prod.snd = GigaPdf.fills engine page ops := by
  have filled : ∀ routes : List (ElementOp ρ × Route),
      formFillOps routes = routes.filterMap fun r => r.2.filled r.1.element := by
    intro routes
    rw [formFillOps]
    congr 1
    funext ⟨op, route⟩
    cases route <;> rfl
  have by_op : ∀ op : ElementOp ρ × Nat,
      (classify engine page op.2 op.1).filled op.1.element = (queuedFill ∘ Prod.fst) op :=
    fun op => classify_filled engine page op.2 op.1
  rw [GigaPdf.fills, filled, routed, List.filterMap_map, queuedFills, List.map_filterMap]
  simp only [Function.comp_def, Option.map_map, Option.map_id', by_op]
  conv_lhs => rw [← List.zipIdx_map_fst 0 ops, List.filterMap_map]
  rfl

theorem queuedFills_tells {ops : List (ElementOp ρ)} :
    ∀ fill ∈ queuedFills ops, fill.2.element.formFieldName = some fill.2.fieldName := by
  intro fill mem
  obtain ⟨op, -, queued⟩ := List.mem_filterMap.mp mem
  obtain ⟨filled, queued, rfl⟩ := Option.map_eq_some_iff.mp queued
  rw [queuedFill] at queued
  split at queued
  · rename_i fieldName value body
    obtain fill_route | redrawn := classifyField_cases op fieldName value
    · rw [fill_route] at queued
      cases queued
      simp only [ElementRecord.formFieldName, body]
    · rw [redrawn] at queued
      cases queued
  · cases queued

end

deriving instance DecidableEq for FormFillOp

/-- The update of a widget on the first page. -/
def fieldUpdate (widget fieldName value : String) : ElementOp Unit where
  action := .update
  element := ⟨widget, some (.formField fieldName (.text value)), some ⟨10, 10, 100, 20⟩, none,
    none, ()⟩
  pageNumber := 1
  oldBounds := some ⟨10, 10, 100, 20⟩
  toFront := none

def fieldFill (widget fieldName value : String) : Nat × FormFillOp Unit :=
  (1, ⟨(fieldUpdate widget fieldName value).element, fieldName, .text value⟩)

/-- A checkbox with the named state `non`. -/
def checkboxForm : FormHandle := ⟨[("rat", .checkbox)], true, fun _ => true⟩

end GigaPdf
