import GigaPdf.Editor.OperationsStore
import GigaPdf.Lib.Runs

/-!
# Bakes

`getPreparedBlob` reads the binary and everything that waits for it, has the server apply it, and
then empties the queue and swaps the binary. Page operations and structural edits swap it too, with
`adoptModifiedPdf`. What the user does is counted: the queue, the content modifications and the
binary are described by the numbers of the edits and page operations that are in them.
-/

namespace GigaPdf

open Upsert OperationsStore

/-- An element of the queue, with the edits that its state stands for. -/
structure TrackedElement where
  elementId : String
  edits : List Nat
deriving DecidableEq

instance : HasElementId TrackedElement := ⟨TrackedElement.elementId⟩

structure ElementModification where
  elementId : String
  edits : List Nat
deriving DecidableEq

/-- What has been applied to a binary. -/
abbrev Binary := List Nat

def queuedEdits (operations : List (ElementOperation TrackedElement)) : List Nat :=
  operations.flatMap fun op => op.element.edits

def modificationEdits (mods : List ElementModification) : List Nat :=
  mods.flatMap ElementModification.edits

/-- What `getPreparedBlob` has read before its await. -/
structure BakeCall where
  pdfFile : Binary
  ops : List (ElementOperation TrackedElement)
  contentMods : List ElementModification
deriving DecidableEq

/-- The binary with everything applied that was read with it. -/
def BakeCall.modified (call : BakeCall) : Binary :=
  call.pdfFile ++ queuedEdits call.ops ++ modificationEdits call.contentMods

/-- `zoneModifications` is the map of the content-edit layer, `blobs` are the binaries that callers
hold to work on, and `made` counts the edits and page operations so far. -/
structure BakingEditor where
  currentPdfFile : Option Binary
  operations : List (ElementOperation TrackedElement)
  zoneModifications : List ElementModification
  contentModifications : List ElementModification
  bakes : List BakeCall
  blobs : List Binary
  made : Nat
deriving DecidableEq

inductive BakeAction
  | load
  | queueAdd (pageNumber : Nat) (elementId : String)
  | queueUpdate (pageNumber : Nat) (elementId : String) (oldBounds : Bounds)
  | queueDelete (pageNumber : Nat) (elementId : String) (bounds : Bounds)
  | queueReorder (pageNumber : Nat) (elementId : String) (toFront : Bool)
  | modifyContent (elementId : String)
  | readForBake
  | bakeSucceeds (call : BakeCall)
  | bakeFails (call : BakeCall)
  | readForPageOperation
  | adoptModifiedPdf (base : Binary)

namespace BakingEditor

def start : BakingEditor := ⟨none, [], [], [], [], [], 0⟩

def binary (σ : BakingEditor) : Binary := σ.currentPdfFile.getD []

/-- The edits that a pending operation on the element stands for. -/
def pendingEdits (σ : BakingEditor) (action : ElementOperationAction) (pageNumber : Nat)
    (elementId : String) : List Nat :=
  ((σ.operations.find? (isFor action pageNumber (⟨elementId, []⟩ : TrackedElement))).map
    fun op => op.element.edits).getD []

/-- The state of the element after one more edit. -/
def edited (σ : BakingEditor) (action : ElementOperationAction) (pageNumber : Nat)
    (elementId : String) : TrackedElement :=
  ⟨elementId, σ.made :: σ.pendingEdits action pageNumber elementId⟩

/-- The edits of the modification of the element that waits for a bake. -/
def pendingModification (σ : BakingEditor) (elementId : String) : List Nat :=
  ((σ.contentModifications.find? fun mod => mod.elementId = elementId).map
    ElementModification.edits).getD []

def queue (σ : BakingEditor) (operations : List (ElementOperation TrackedElement)) :
    BakingEditor :=
  { σ with operations, made := σ.made + 1 }

/-- The layer sets the modification of the element in its map, and hands over the whole map. -/
def modify (σ : BakingEditor) (elementId : String) : BakingEditor :=
  let mod : ElementModification := ⟨elementId, σ.made :: σ.pendingModification elementId⟩
  let all := upsert (fun m => m.elementId = elementId) (fun _ => mod) mod σ.zoneModifications
  { σ with zoneModifications := all, contentModifications := all, made := σ.made + 1 }

/-- `getPreparedBlob` up to its await. Without a binary it returns null, with nothing to bake the
binary as it is. -/
def readForBake (σ : BakingEditor) : BakingEditor :=
  match σ.currentPdfFile with
  | none => σ
  | some pdfFile =>
    if σ.operations = [] ∧ σ.contentModifications = [] then { σ with blobs := pdfFile :: σ.blobs }
    else { σ with bakes := ⟨pdfFile, σ.operations, σ.contentModifications⟩ :: σ.bakes }

/-- The rest of it. The whole queue is drained. -/
def bakeSucceeds (σ : BakingEditor) (call : BakeCall) : BakingEditor :=
  { σ with
    currentPdfFile := some call.modified
    operations := (drain σ.operations).2
    contentModifications := []
    bakes := σ.bakes.erase call
    blobs := call.modified :: σ.blobs }

/-- The rest of it when `apply-elements` throws. -/
def bakeFails (σ : BakingEditor) (call : BakeCall) : BakingEditor :=
  { σ with bakes := σ.bakes.erase call, blobs := call.pdfFile :: σ.blobs }

/-- The base of a page operation, unless `getPreparedBlob` has returned it. -/
def readForPageOperation (σ : BakingEditor) : BakingEditor :=
  match σ.currentPdfFile with
  | none => σ
  | some pdfFile => { σ with blobs := pdfFile :: σ.blobs }

/-- The base with a page operation applied takes the place of the binary. -/
def adopt (σ : BakingEditor) (base : Binary) : BakingEditor :=
  match σ.currentPdfFile with
  | none => σ
  | some _ =>
    { σ with
      currentPdfFile := some (base ++ [σ.made])
      blobs := σ.blobs.erase base
      made := σ.made + 1 }

def step (σ : BakingEditor) : BakeAction → Option BakingEditor
  | .load => if σ.currentPdfFile = none then some { σ with currentPdfFile := some [] } else none
  | .queueAdd pageNumber elementId =>
    some (σ.queue (queueAdd pageNumber ⟨elementId, [σ.made]⟩ σ.operations))
  | .queueUpdate pageNumber elementId oldBounds =>
    some (σ.queue (queueUpdate pageNumber (σ.edited .update pageNumber elementId) oldBounds
      σ.operations))
  | .queueDelete pageNumber elementId bounds =>
    some (σ.queue (queueDelete pageNumber ⟨elementId, [σ.made]⟩ bounds σ.operations))
  | .queueReorder pageNumber elementId toFront =>
    some (σ.queue (queueReorder pageNumber (σ.edited .reorder pageNumber elementId) toFront
      σ.operations))
  | .modifyContent elementId => some (σ.modify elementId)
  | .readForBake => some σ.readForBake
  | .bakeSucceeds call => if call ∈ σ.bakes then some (σ.bakeSucceeds call) else none
  | .bakeFails call => if call ∈ σ.bakes then some (σ.bakeFails call) else none
  | .readForPageOperation => some σ.readForPageOperation
  | .adoptModifiedPdf base => if base ∈ σ.blobs then some (σ.adopt base) else none

/-- What waits for a bake and what has been applied. -/
def accounted (σ : BakingEditor) : List Nat :=
  queuedEdits σ.operations ++ modificationEdits σ.contentModifications ++ σ.binary

/-- Every edit and page operation is pending or applied, and that once. -/
def Accounted (σ : BakingEditor) : Prop := ∀ n < σ.made, σ.accounted.count n = 1

instance (σ : BakingEditor) : Decidable (Accounted σ) :=
  inferInstanceAs (Decidable (∀ n < σ.made, σ.accounted.count n = 1))

/-- A swap brings in everything that it takes the place of: a bake has read all that is pending or
applied, a page operation's base has all that is applied. The layer lists nothing that was baked,
but for the element that is modified. -/
def soundStep (σ : BakingEditor) : BakeAction → Prop
  | .bakeSucceeds call => ∀ n ∈ σ.accounted, n ∈ call.modified
  | .adoptModifiedPdf base => ∀ n ∈ σ.binary, n ∈ base
  | .modifyContent elementId =>
    ∀ mod ∈ σ.zoneModifications, mod.elementId ≠ elementId → mod ∈ σ.contentModifications
  | _ => True

instance (σ : BakingEditor) : ∀ a, Decidable (soundStep σ a)
  | .bakeSucceeds call =>
    inferInstanceAs (Decidable (∀ n ∈ σ.accounted, n ∈ call.modified))
  | .adoptModifiedPdf base => inferInstanceAs (Decidable (∀ n ∈ σ.binary, n ∈ base))
  | .modifyContent elementId =>
    inferInstanceAs (Decidable (∀ mod ∈ σ.zoneModifications, mod.elementId ≠ elementId →
      mod ∈ σ.contentModifications))
  | .load | .queueAdd .. | .queueUpdate .. | .queueDelete .. | .queueReorder .. | .readForBake
  | .bakeFails .. | .readForPageOperation => .isTrue trivial

/-! ## What the queue holds -/

theorem queuedEdits_append (operations : List (ElementOperation TrackedElement))
    (op : ElementOperation TrackedElement) :
    queuedEdits (operations ++ [op]) = queuedEdits operations ++ op.element.edits := by
  rw [queuedEdits, List.flatMap_append, List.flatMap_singleton]
  rfl

theorem pendingEdits_of_find {σ : BakingEditor} {action : ElementOperationAction} {pageNumber : Nat}
    {elementId : String} {found : Option (ElementOperation TrackedElement)}
    (h : σ.operations.find? (isFor action pageNumber (σ.edited action pageNumber elementId)) =
      found) :
    σ.pendingEdits action pageNumber elementId = (found.map fun op => op.element.edits).getD [] := by
  have same : σ.operations.find? (isFor action pageNumber (⟨elementId, []⟩ : TrackedElement)) =
      found := h
  rw [pendingEdits, same]

/-- An operation that joins the pending one of its element stands for its edits too. -/
theorem queuedEdits_upsert (σ : BakingEditor) (action : ElementOperationAction) (pageNumber : Nat)
    (elementId : String)
    {join : ElementOperation TrackedElement → ElementOperation TrackedElement}
    {new : ElementOperation TrackedElement}
    (joined : ∀ op, (join op).element = σ.edited action pageNumber elementId)
    (appended : new.element = σ.edited action pageNumber elementId) :
    (queuedEdits (upsert (isFor action pageNumber (σ.edited action pageNumber elementId)) join new
      σ.operations)).Perm (σ.made :: queuedEdits σ.operations) := by
  apply flatMap_upsert_perm
  · intro op found
    rw [joined, edited, pendingEdits_of_find found]
    exact List.Perm.refl _
  · intro absent
    rw [appended, edited, pendingEdits_of_find absent]
    rfl

/-! ## The invariant -/

structure Inv (σ : BakingEditor) : Prop where
  accounted : σ.accounted.Perm (List.range σ.made)
  bakes : ∀ call ∈ σ.bakes, call.modified.Nodup ∧ (∀ n ∈ call.modified, n < σ.made) ∧
    ∀ n ∈ call.pdfFile, n ∈ σ.binary
  blobs : ∀ blob ∈ σ.blobs, blob.Nodup ∧ ∀ n ∈ blob, n ∈ σ.binary
  zone : (σ.zoneModifications.map ElementModification.elementId).Nodup
  edits : ∀ mod ∈ σ.zoneModifications, mod.edits ≠ [] ∧ ∀ n ∈ mod.edits, n < σ.made
  contents : σ.contentModifications = [] ∨ σ.contentModifications = σ.zoneModifications

theorem Inv.accounts {σ : BakingEditor} (inv : Inv σ) : Accounted σ := by
  intro n bound
  rw [inv.accounted.count_eq]
  exact List.count_eq_one_of_mem List.nodup_range (List.mem_range.mpr bound)

theorem Inv.nodup {σ : BakingEditor} (inv : Inv σ) : σ.accounted.Nodup :=
  inv.accounted.nodup_iff.mpr List.nodup_range

theorem Inv.bound {σ : BakingEditor} (inv : Inv σ) {n : Nat} (mem : n ∈ σ.accounted) :
    n < σ.made := by
  rw [inv.accounted.mem_iff, List.mem_range] at mem
  exact mem

/-- What has been read stays within what has been made. -/
theorem Inv.later_bakes {σ : BakingEditor} (inv : Inv σ) : ∀ call ∈ σ.bakes,
    call.modified.Nodup ∧ (∀ n ∈ call.modified, n < σ.made + 1) ∧
      ∀ n ∈ call.pdfFile, n ∈ σ.binary := by
  intro call mem
  obtain ⟨nodup, bound, read⟩ := inv.bakes call mem
  exact ⟨nodup, fun n hn => Nat.lt_succ_of_lt (bound n hn), read⟩

theorem Inv.later_edits {σ : BakingEditor} (inv : Inv σ) : ∀ mod ∈ σ.zoneModifications,
    mod.edits ≠ [] ∧ ∀ n ∈ mod.edits, n < σ.made + 1 := by
  intro mod mem
  obtain ⟨some_edit, bound⟩ := inv.edits mod mem
  exact ⟨some_edit, fun n hn => Nat.lt_succ_of_lt (bound n hn)⟩

theorem mem_accounted_of_binary {σ : BakingEditor} {n : Nat} (mem : n ∈ σ.binary) :
    n ∈ σ.accounted := List.mem_append_right _ mem

theorem range_succ_perm (made : Nat) : (made :: List.range made).Perm (List.range (made + 1)) := by
  rw [List.range_succ]
  exact (List.perm_append_singleton made (List.range made)).symm

theorem start_inv : Inv start where
  accounted := List.Perm.refl _
  bakes call mem := by cases mem
  blobs blob mem := by cases mem
  zone := List.nodup_nil
  edits mod mem := by cases mem
  contents := .inl rfl

theorem Inv.queue {σ : BakingEditor} (inv : Inv σ)
    {operations : List (ElementOperation TrackedElement)}
    (queued : (queuedEdits operations).Perm (σ.made :: queuedEdits σ.operations)) :
    Inv (σ.queue operations) where
  accounted := by
    have front : (σ.queue operations).accounted.Perm (σ.made :: σ.accounted) :=
      (queued.append_right _).append_right _
    exact front.trans ((inv.accounted.cons σ.made).trans (range_succ_perm σ.made))
  bakes := inv.later_bakes
  blobs := inv.blobs
  zone := inv.zone
  edits := inv.later_edits
  contents := inv.contents

/-- A caller may hold the binary. -/
theorem Inv.hold {σ : BakingEditor} (inv : Inv σ) : Inv { σ with blobs := σ.binary :: σ.blobs } := by
  refine { inv with blobs := fun blob mem => ?_ }
  obtain rfl | mem := List.mem_cons.mp mem
  · exact ⟨(List.nodup_append.mp inv.nodup).2.1, fun n hn => hn⟩
  · exact inv.blobs blob mem

/-- A bake may have read all that there is. -/
theorem Inv.read {σ : BakingEditor} (inv : Inv σ) :
    Inv { σ with bakes := ⟨σ.binary, σ.operations, σ.contentModifications⟩ :: σ.bakes } := by
  refine { inv with bakes := fun call mem => ?_ }
  obtain rfl | mem := List.mem_cons.mp mem
  · have same : (BakeCall.modified ⟨σ.binary, σ.operations, σ.contentModifications⟩).Perm
        σ.accounted := by
      rw [BakeCall.modified, List.append_assoc]
      exact List.perm_append_comm
    exact ⟨same.nodup_iff.mpr inv.nodup, fun n hn => inv.bound (same.mem_iff.mp hn),
      fun n hn => hn⟩
  · exact inv.bakes call mem

theorem readForBake_cases (σ : BakingEditor) :
    σ.readForBake = σ ∨ σ.readForBake = { σ with blobs := σ.binary :: σ.blobs } ∨
      σ.readForBake =
        { σ with bakes := ⟨σ.binary, σ.operations, σ.contentModifications⟩ :: σ.bakes } := by
  rw [readForBake, binary]
  cases σ.currentPdfFile with
  | none => exact .inl rfl
  | some pdfFile =>
    by_cases nothing : σ.operations = [] ∧ σ.contentModifications = []
    · exact .inr (.inl (if_pos nothing))
    · exact .inr (.inr (if_neg nothing))

theorem Inv.readForBake {σ : BakingEditor} (inv : Inv σ) : Inv σ.readForBake := by
  obtain same | held | read := readForBake_cases σ
  · rw [same]
    exact inv
  · rw [held]
    exact inv.hold
  · rw [read]
    exact inv.read

theorem Inv.readForPageOperation {σ : BakingEditor} (inv : Inv σ) :
    Inv σ.readForPageOperation := by
  have hold := inv.hold
  rw [binary] at hold
  rw [BakingEditor.readForPageOperation]
  cases file : σ.currentPdfFile with
  | none => exact inv
  | some pdfFile =>
    rw [file] at hold
    exact hold

theorem Inv.bakeFails {σ : BakingEditor} (inv : Inv σ) {call : BakeCall} (read : call ∈ σ.bakes) :
    Inv (σ.bakeFails call) := by
  obtain ⟨nodup, -, old⟩ := inv.bakes call read
  refine { inv with bakes := fun c mem => inv.bakes c (List.mem_of_mem_erase mem), blobs := ?_ }
  intro blob mem
  obtain rfl | mem := List.mem_cons.mp mem
  · rw [BakeCall.modified, List.append_assoc] at nodup
    exact ⟨(List.nodup_append.mp nodup).1, old⟩
  · exact inv.blobs blob mem

/-- A bake that has read everything accounts for it. -/
theorem Inv.bakeSucceeds {σ : BakingEditor} (inv : Inv σ) {call : BakeCall}
    (read : call ∈ σ.bakes) (all : ∀ n ∈ σ.accounted, n ∈ call.modified) :
    Inv (σ.bakeSucceeds call) := by
  obtain ⟨nodup, bound, -⟩ := inv.bakes call read
  have same : call.modified.Perm (List.range σ.made) := by
    rw [List.perm_ext_iff_of_nodup nodup List.nodup_range]
    intro n
    rw [List.mem_range]
    constructor
    · exact bound n
    · intro lt
      exact all n (inv.accounted.mem_iff.mpr (List.mem_range.mpr lt))
  have grows : ∀ n ∈ σ.binary, n ∈ (σ.bakeSucceeds call).binary := fun n hn =>
    all n (mem_accounted_of_binary hn)
  refine { inv with accounted := same, bakes := ?_, blobs := ?_, contents := .inl rfl }
  · intro c mem
    obtain ⟨nodup, bound, old⟩ := inv.bakes c (List.mem_of_mem_erase mem)
    exact ⟨nodup, bound, fun n hn => grows n (old n hn)⟩
  · intro blob mem
    obtain rfl | mem := List.mem_cons.mp mem
    · exact ⟨nodup, fun n hn => hn⟩
    · obtain ⟨nodup, old⟩ := inv.blobs blob mem
      exact ⟨nodup, fun n hn => grows n (old n hn)⟩

/-- A page operation whose base has everything that is applied adds itself. -/
theorem Inv.adopt {σ : BakingEditor} (inv : Inv σ) {base : Binary} (held : base ∈ σ.blobs)
    (all : ∀ n ∈ σ.binary, n ∈ base) : Inv (σ.adopt base) := by
  rw [BakingEditor.adopt]
  cases file : σ.currentPdfFile with
  | none => exact inv
  | some pdfFile =>
    obtain ⟨nodup, old⟩ := inv.blobs base held
    have same : base.Perm σ.binary := by
      rw [List.perm_ext_iff_of_nodup nodup (List.nodup_append.mp inv.nodup).2.1]
      exact fun n => ⟨old n, all n⟩
    have grows : ∀ n ∈ σ.binary, n ∈ base ++ [σ.made] := fun n hn =>
      List.mem_append_left _ (all n hn)
    refine ⟨?_, fun call mem => ?_, fun blob mem => ?_, inv.zone, inv.later_edits, inv.contents⟩
    · have swapped : (queuedEdits σ.operations ++ modificationEdits σ.contentModifications ++
          (base ++ [σ.made])).Perm (σ.made :: σ.accounted) := by
        rw [← List.append_assoc]
        exact (List.perm_append_singleton σ.made _).trans ((same.append_left _).cons σ.made)
      exact swapped.trans ((inv.accounted.cons σ.made).trans (range_succ_perm σ.made))
    · obtain ⟨nodup, bound, read⟩ := inv.later_bakes call mem
      exact ⟨nodup, bound, fun n hn => grows n (read n hn)⟩
    · obtain ⟨nodup, read⟩ := inv.blobs blob (List.mem_of_mem_erase mem)
      exact ⟨nodup, fun n hn => grows n (read n hn)⟩

/-! ## Content modifications -/

theorem pendingModification_bound {σ : BakingEditor} (inv : Inv σ) (elementId : String) :
    ∀ n ∈ σ.pendingModification elementId, n < σ.made := by
  intro n hn
  rw [pendingModification] at hn
  cases found : σ.contentModifications.find? fun mod => mod.elementId = elementId with
  | none =>
    rw [found] at hn
    cases hn
  | some mod =>
    rw [found] at hn
    have mem := List.mem_of_find?_eq_some found
    obtain none_waits | all_wait := inv.contents
    · rw [none_waits] at mem
      cases mem
    · rw [all_wait] at mem
      exact (inv.edits mod mem).2 n hn

/-- What waits after a modification, when the layer lists nothing else that was baked. -/
theorem modificationEdits_modify {σ : BakingEditor} (inv : Inv σ) {elementId : String}
    (listed : ∀ mod ∈ σ.zoneModifications, mod.elementId ≠ elementId →
      mod ∈ σ.contentModifications) :
    (modificationEdits (σ.modify elementId).contentModifications).Perm
      (σ.made :: modificationEdits σ.contentModifications) := by
  obtain none_waits | all_wait := inv.contents
  · have pending : σ.pendingModification elementId = [] := by
      rw [pendingModification, none_waits]
      rfl
    have same : ∀ mod ∈ σ.zoneModifications, mod.elementId = elementId := by
      intro mod mem
      by_contra other
      have waits := listed mod mem other
      rw [none_waits] at waits
      cases waits
    have only : (σ.modify elementId).contentModifications = [⟨elementId, [σ.made]⟩] := by
      have nodup := inv.zone
      rw [modify, pending]
      match zone : σ.zoneModifications with
      | [] => rfl
      | [mod] =>
        have here := same mod (by rw [zone]; exact List.mem_singleton_self mod)
        simp [upsert, here]
      | mod :: mod' :: rest =>
        have here := same mod (by rw [zone]; simp)
        have here' := same mod' (by rw [zone]; simp)
        rw [zone] at nodup
        simp [here, here'] at nodup
    rw [only, none_waits]
    exact List.Perm.refl _
  · have pending : ∀ {found}, σ.zoneModifications.find? (fun mod => mod.elementId = elementId) =
        found → σ.pendingModification elementId =
          (found.map ElementModification.edits).getD [] := by
      intro found h
      rw [pendingModification, all_wait, h]
    rw [all_wait]
    apply flatMap_upsert_perm
    · intro mod found
      rw [pending found]
      exact List.Perm.refl _
    · intro absent
      rw [pending absent]
      rfl

theorem Inv.modify {σ : BakingEditor} (inv : Inv σ) {elementId : String}
    (listed : ∀ mod ∈ σ.zoneModifications, mod.elementId ≠ elementId →
      mod ∈ σ.contentModifications) : Inv (σ.modify elementId) where
  accounted := by
    have more := modificationEdits_modify inv listed
    have front : (σ.modify elementId).accounted.Perm (σ.made :: σ.accounted) :=
      ((more.append_left (queuedEdits σ.operations)).append_right σ.binary).trans
        (List.perm_middle.append_right _)
    exact front.trans ((inv.accounted.cons σ.made).trans (range_succ_perm σ.made))
  bakes := inv.later_bakes
  blobs := inv.blobs
  zone := by
    apply nodup_map_upsert inv.zone
    · intro mod here
      exact (of_decide_eq_true here).symm
    · intro mod _ other
      exact of_decide_eq_false other
  edits mod mem := by
    have new : ∀ n ∈ σ.made :: σ.pendingModification elementId, n < σ.made + 1 := by
      intro n hn
      obtain rfl | hn := List.mem_cons.mp hn
      · exact Nat.lt_succ_self _
      · exact Nat.lt_succ_of_lt (pendingModification_bound inv elementId n hn)
    obtain old | ⟨-, -, rfl⟩ | ⟨-, rfl⟩ := mem_upsert mem
    · exact inv.later_edits mod old
    · exact ⟨List.cons_ne_nil _ _, new⟩
    · exact ⟨List.cons_ne_nil _ _, new⟩
  contents := .inr rfl

/-! ## Runs -/

theorem Inv.step {σ σ' : BakingEditor} {a : BakeAction} (inv : Inv σ) (sound : soundStep σ a)
    (h : σ.step a = some σ') : Inv σ' := by
  cases a with
  | load =>
    obtain ⟨unloaded, h⟩ := Option.ite_none_right_eq_some.mp h
    cases h
    have same : σ.binary = [] := by rw [binary, unloaded]; rfl
    have loaded : binary { σ with currentPdfFile := some [] } = σ.binary := same.symm
    refine ⟨?_, ?_, ?_, inv.zone, inv.edits, inv.contents⟩
    · rw [BakingEditor.accounted, loaded]
      exact inv.accounted
    · rw [loaded]
      exact inv.bakes
    · rw [loaded]
      exact inv.blobs
  | queueAdd pageNumber elementId =>
    cases h
    apply inv.queue
    rw [queueAdd, queuedEdits_append]
    exact List.perm_append_singleton _ _
  | queueUpdate pageNumber elementId oldBounds =>
    cases h
    exact inv.queue (queuedEdits_upsert σ .update pageNumber elementId (fun _ => rfl) rfl)
  | queueDelete pageNumber elementId bounds =>
    cases h
    apply inv.queue
    rw [queueDelete, queuedEdits_append]
    exact List.perm_append_singleton _ _
  | queueReorder pageNumber elementId toFront =>
    cases h
    exact inv.queue (queuedEdits_upsert σ .reorder pageNumber elementId (fun _ => rfl) rfl)
  | modifyContent elementId =>
    cases h
    exact inv.modify sound
  | readForBake =>
    cases h
    exact inv.readForBake
  | bakeSucceeds call =>
    obtain ⟨read, h⟩ := Option.ite_none_right_eq_some.mp h
    cases h
    exact inv.bakeSucceeds read sound
  | bakeFails call =>
    obtain ⟨read, h⟩ := Option.ite_none_right_eq_some.mp h
    cases h
    exact inv.bakeFails read
  | readForPageOperation =>
    cases h
    exact inv.readForPageOperation
  | adoptModifiedPdf base =>
    obtain ⟨held, h⟩ := Option.ite_none_right_eq_some.mp h
    cases h
    exact inv.adopt held sound

theorem mem_of_accounted {σ : BakingEditor} (accounted : Accounted σ) {n : Nat} (lt : n < σ.made) :
    n ∈ σ.accounted := by
  rw [← List.count_pos_iff, accounted n lt]
  exact Nat.one_pos

/-- A base that lacks something which is applied loses it. -/
theorem base_of_accounted {σ : BakingEditor} (inv : Inv σ) {base : Binary}
    (accounted' : Accounted (σ.adopt base)) : ∀ n ∈ σ.binary, n ∈ base := by
  intro n hn
  have lt := inv.bound (mem_accounted_of_binary hn)
  have not_pending : n ∉ queuedEdits σ.operations ++ modificationEdits σ.contentModifications :=
    fun pending => (List.nodup_append.mp inv.nodup).2.2 n pending n hn rfl
  rw [adopt] at accounted'
  cases file : σ.currentPdfFile with
  | none =>
    rw [binary, file] at hn
    cases hn
  | some pdfFile =>
    simp only [file] at accounted'
    have mem := mem_of_accounted accounted' (Nat.lt_succ_of_lt lt)
    obtain pending | applied := List.mem_append.mp mem
    · exact absurd pending not_pending
    · obtain old | new := List.mem_append.mp applied
      · exact old
      · have := List.mem_singleton.mp new
        omega

/-- A modification that was baked and is handed over again is there twice. -/
theorem listed_of_accounted {σ : BakingEditor} (inv : Inv σ) {elementId : String}
    (accounted' : Accounted (σ.modify elementId)) :
    ∀ mod ∈ σ.zoneModifications, mod.elementId ≠ elementId → mod ∈ σ.contentModifications := by
  intro mod mem other
  obtain none_waits | all_wait := inv.contents
  · exfalso
    obtain ⟨some_edit, bound⟩ := inv.edits mod mem
    obtain ⟨n, hn⟩ := List.exists_mem_of_ne_nil _ some_edit
    have listed : mod ∈ (σ.modify elementId).contentModifications :=
      mem_upsert_of_not mem (decide_eq_false other)
    have again : n ∈ modificationEdits (σ.modify elementId).contentModifications :=
      List.mem_flatMap.mpr ⟨mod, listed, hn⟩
    have before : n ∈ queuedEdits σ.operations ++ σ.binary := by
      have old := mem_of_accounted inv.accounts (bound n hn)
      rw [accounted, none_waits] at old
      simpa [modificationEdits] using old
    have once : (σ.modify elementId).accounted.count n = 1 :=
      accounted' n (Nat.lt_succ_of_lt (bound n hn))
    have split : (σ.modify elementId).accounted.count n =
        (queuedEdits σ.operations).count n +
          (modificationEdits (σ.modify elementId).contentModifications).count n +
            σ.binary.count n := by
      rw [accounted, List.count_append, List.count_append]
      rfl
    have positive := List.count_pos_iff.mpr again
    have positive' := List.count_pos_iff.mpr before
    rw [List.count_append] at positive'
    omega
  · rw [all_wait]
    exact mem

/-- A step that is not sound loses something, or lists it once more. -/
theorem soundStep_of_accounted {σ σ' : BakingEditor} {a : BakeAction} (inv : Inv σ)
    (h : σ.step a = some σ') (accounted' : Accounted σ') : soundStep σ a := by
  cases a with
  | load | queueAdd | queueUpdate | queueDelete | queueReorder | readForBake | bakeFails
  | readForPageOperation => trivial
  | bakeSucceeds call =>
    obtain ⟨-, h⟩ := Option.ite_none_right_eq_some.mp h
    cases h
    intro n hn
    have lt : n < (σ.bakeSucceeds call).made := inv.bound hn
    exact mem_of_accounted accounted' lt
  | adoptModifiedPdf base =>
    obtain ⟨-, h⟩ := Option.ite_none_right_eq_some.mp h
    cases h
    exact base_of_accounted inv accounted'
  | modifyContent elementId =>
    cases h
    exact listed_of_accounted inv accounted'

/-- **Every edit is baked once along sound runs.** As long as every swap brings in all that it takes
the place of, and the edit layer lists nothing that was baked, every edit waits or is applied, and
that once; a step that is not sound breaks this at once. -/
theorem edits_baked_once {σ : BakingEditor} (run : Runs.Reaches step soundStep start σ) :
    Accounted σ ∧ ∀ a σ', σ.step a = some σ' → (Accounted σ' ↔ soundStep σ a) := by
  have inv : Inv σ := run.invariant (fun _ _ _ inv sound h => inv.step sound h) start_inv
  refine ⟨inv.accounts, fun a σ' h => ?_⟩
  constructor
  · exact soundStep_of_accounted inv h
  · exact fun sound => (inv.step sound h).accounts

theorem edits_baked_once_saved : ∃ σ, Runs.Reaches step soundStep start σ ∧ σ.binary = [0, 1] ∧
    Accounted σ := by
  obtain ⟨σ, run, applied⟩ := Runs.exists_reaches_of_runAll step soundStep start
    [.load, .queueAdd 1 "a", .queueUpdate 1 "b" ⟨0, 0, 1, 1⟩, .readForBake,
     .bakeSucceeds ⟨[], [⟨.add, 1, ⟨"a", [0]⟩, none, none⟩,
       ⟨.update, 1, ⟨"b", [1]⟩, some ⟨0, 0, 1, 1⟩, none⟩], []⟩]
    (fun σ => σ.binary = [0, 1]) (by decide)
  exact ⟨σ, run, applied, (edits_baked_once run).1⟩

/-- An edit queued during a bake is drained with it; a page operation whose base was read before a
bake discards the bake; and the edit layer hands over once more what was baked. -/
theorem edit_lost_or_twice :
    (∃ σ, Runs.Reaches step Runs.always start σ ∧ 1 < σ.made ∧ σ.accounted.count 1 = 0) ∧
    (∃ σ, Runs.Reaches step Runs.always start σ ∧ 0 < σ.made ∧ σ.accounted.count 0 = 0) ∧
    (∃ σ, Runs.Reaches step Runs.always start σ ∧ σ.binary.count 0 = 2) ∧
    ¬ ∀ σ, Runs.Reaches step Runs.always start σ → Accounted σ := by
  have dropped : ∃ σ, Runs.Reaches step Runs.always start σ ∧ 1 < σ.made ∧
      σ.accounted.count 1 = 0 :=
    Runs.exists_reaches_of_runAll step Runs.always start
      [.load, .queueAdd 1 "a", .readForBake, .queueAdd 1 "b",
       .bakeSucceeds ⟨[], [⟨.add, 1, ⟨"a", [0]⟩, none, none⟩], []⟩] _ (by decide)
  refine ⟨dropped, ?_, ?_, fun all => ?_⟩
  · exact Runs.exists_reaches_of_runAll step Runs.always start
      [.load, .queueAdd 1 "a", .readForBake, .readForPageOperation,
       .bakeSucceeds ⟨[], [⟨.add, 1, ⟨"a", [0]⟩, none, none⟩], []⟩, .adoptModifiedPdf []] _ (by decide)
  · exact Runs.exists_reaches_of_runAll step Runs.always start
      [.load, .modifyContent "a", .readForBake, .bakeSucceeds ⟨[], [], [⟨"a", [0]⟩]⟩,
       .modifyContent "b", .readForBake, .bakeSucceeds ⟨[0], [], [⟨"a", [0]⟩, ⟨"b", [1]⟩]⟩] _
      (by decide)
  · obtain ⟨σ, run, made, lost⟩ := dropped
    have once := all σ run 1 made
    omega

end BakingEditor

end GigaPdf
