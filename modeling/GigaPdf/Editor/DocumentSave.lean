import GigaPdf.Models
import GigaPdf.Offline.Flushes

/-!
# Saves of the editor

`useDocumentSave`: saves, timers, the offline queue and its flush, interleaved with edits. Local
edits are in what is prepared for a save, and never in the bytes of the session on the server.
-/

namespace GigaPdf

open Runs

inductive SavePriority
  | immediate | debounced | auto
deriving DecidableEq

/-- The bytes of a save: when they were prepared, and whether they were fetched instead. -/
structure SaveBlob where
  editsThen : Nat
  fetched : Bool
deriving DecidableEq

def SaveBlob.edits (blob : SaveBlob) : Nat := if blob.fetched then 0 else blob.editsThen

theorem SaveBlob.edits_eq {blob : SaveBlob} (unedited : blob.fetched = true → blob.editsThen = 0) :
    blob.edits = blob.editsThen := by
  rw [SaveBlob.edits]
  split
  · exact (unedited ‹_›).symm
  · rfl

/-- Where a save stands, while `savingRef` is set. -/
inductive SavePhase
  | preparing
  | prepared (blob : SaveBlob)
  | uploaded (blob : SaveBlob)
deriving DecidableEq

def SavePhase.blob? : SavePhase → Option SaveBlob
  | .preparing => none
  | .prepared blob | .uploaded blob => some blob

/-- A flush, while `isSyncingRef` is set. The operations carry their document. -/
structure SyncingFlush where
  now : Int
  phase : FlushPhase Uuid
  synced : Nat
deriving DecidableEq

/-- `edits` counts those that were made, and `stored` those that are in the last version on the
server. -/
structure DocumentSave where
  documentId : Uuid
  edits : Nat
  stored : Nat
  pendingChanges : Nat
  isDirty : Bool
  isOffline : Bool
  debounceTimer : Bool
  saving : Option SavePhase
  queue : Offline Uuid
  syncing : Option SyncingFlush

/-- What an operation that is enqueued gets from elsewhere. -/
structure EnqueueContext where
  id : Nat
  now : Int
  writes : Writes
deriving DecidableEq

inductive DocumentSaveStep
  | edit (priority : SavePriority) (context : EnqueueContext)
  /-- `save`, and `saveAs`. -/
  | save (context : EnqueueContext)
  | timerFires (context : EnqueueContext)
  | autoSave (context : EnqueueContext)
  | cancelPendingSave
  /-- `getPreparedBlob` returns a blob, or the bytes are fetched. -/
  | prepare (returns : Bool)
  | upload
  | complete
  /-- Something has raised. -/
  | fail (context : EnqueueContext)
  | goOffline
  | goOnline (now : Int)
  | peek
  | dequeue
  | replay
  | replayFails (retryTime : Int) (writes : Writes)
  | endFlush

namespace DocumentSave

def start (documentId : Uuid) (queue : Offline Uuid) (isOffline : Bool) : DocumentSave :=
  ⟨documentId, 0, 0, 0, false, isOffline, false, none, queue, none⟩

def enqueue (σ : DocumentSave) (context : EnqueueContext) : Option DocumentSave :=
  (σ.queue.enqueue context.id .saveDocument σ.documentId context.now context.writes).map
    fun queue => { σ with queue }

def performSave (σ : DocumentSave) (context : EnqueueContext) : Option DocumentSave :=
  if σ.saving.isSome then some σ
  else if σ.isOffline then σ.enqueue context
  else some { σ with saving := some .preparing }

def save (σ : DocumentSave) (context : EnqueueContext) : Option DocumentSave :=
  { σ with debounceTimer := false }.performSave context

/-- An edit marks the document as modified and calls `saveWithPriority`. -/
def edit (σ : DocumentSave) (priority : SavePriority) (context : EnqueueContext) :
    Option DocumentSave :=
  let edited : DocumentSave :=
    { σ with edits := σ.edits + 1, isDirty := true, pendingChanges := σ.pendingChanges + 1 }
  match priority with
  | .immediate => edited.save context
  | .debounced => some { edited with debounceTimer := true }
  | .auto => some edited

def clearPending (σ : DocumentSave) : DocumentSave :=
  { σ with pendingChanges := 0, isDirty := false }

/-- Nothing happens when there is nothing to flush, or a flush goes on. -/
def flushOfflineQueue (σ : DocumentSave) (now : Int) : DocumentSave :=
  if σ.queue.queue.size = 0 ∨ σ.syncing.isSome then σ
  else { σ with syncing := some ⟨now, .ready, 0⟩ }

/-- The operation saves this document. Types that are not known are skipped. -/
def Replays (σ : DocumentSave) (op : PendingOperation Uuid) : Prop :=
  op.type = .saveDocument ∧ op.payload = σ.documentId

instance (σ : DocumentSave) (op : PendingOperation Uuid) : Decidable (σ.Replays op) := by
  unfold Replays
  infer_instance

/-- The bytes are fetched again. -/
def replayOperation (σ : DocumentSave) (op : PendingOperation Uuid) : DocumentSave :=
  if σ.Replays op then { σ with stored := 0 } else σ

def step (σ : DocumentSave) : DocumentSaveStep → Option DocumentSave
  | .edit priority context => σ.edit priority context
  | .save context => σ.save context
  | .timerFires context => if σ.debounceTimer then σ.save context else none
  | .autoSave context =>
    if σ.isDirty ∧ ¬σ.saving.isSome ∧ ¬σ.debounceTimer then σ.save context else some σ
  | .cancelPendingSave => some { σ with debounceTimer := false }
  | .prepare returns =>
    if σ.saving = some .preparing then
      some { σ with saving := some (.prepared ⟨σ.edits, !returns⟩) }
    else none
  | .upload =>
    match σ.saving with
    | some (.prepared blob) =>
      some { σ with stored := blob.edits, saving := some (.uploaded blob) }
    | _ => none
  | .complete =>
    match σ.saving with
    | some (.uploaded _) => some { σ.clearPending with saving := none }
    | _ => none
  | .fail context => if σ.saving.isSome then { σ with saving := none }.enqueue context else none
  | .goOffline => some { σ with isOffline := true }
  | .goOnline now => some ({ σ with isOffline := false }.flushOfflineQueue now)
  | .peek =>
    match σ.syncing with
    | some ⟨now, .ready, synced⟩ =>
      let phase : FlushPhase Uuid :=
        match σ.queue.queue.peek with
        | none => .finished
        | some op => .peeked op
      some { σ with syncing := some ⟨now, phase, synced⟩ }
    | _ => none
  | .dequeue =>
    match σ.syncing with
    | some ⟨now, .peeked op, synced⟩ =>
      let phase : FlushPhase Uuid := if op.expired now then .ready else .holding op
      some { σ with queue := σ.queue.dequeue, syncing := some ⟨now, phase, synced⟩ }
    | _ => none
  | .replay =>
    match σ.syncing with
    | some ⟨now, .holding op, synced⟩ =>
      some { σ.replayOperation op with syncing := some ⟨now, .ready, synced + 1⟩ }
    | _ => none
  | .replayFails retryTime writes =>
    match σ.syncing with
    | some ⟨now, .holding op, synced⟩ =>
      some { σ with
        queue := σ.queue.putBack retryTime writes (some op)
        syncing := some ⟨now, .finished, synced⟩ }
    | _ => none
  | .endFlush =>
    match σ.syncing with
    | some ⟨_, .finished, synced⟩ =>
      some { (if 0 < synced then σ.clearPending else σ) with syncing := none }
    | _ => none

/-- Clean means saved, and what is not saved is counted. -/
structure Saved (σ : DocumentSave) : Prop where
  clean : σ.pendingChanges = 0 → σ.isDirty = false → σ.stored = σ.edits
  counted : σ.edits ≤ σ.stored + σ.pendingChanges

/-- Bytes without the edits are stored, by a save or a replay, only when there are none. A save
completes when nothing was edited since its preparation, and a flush that has replayed something ends
when no change is pending. -/
def SoundStep (σ : DocumentSave) : DocumentSaveStep → Prop
  | .upload =>
    ∀ phase ∈ σ.saving, ∀ blob ∈ phase.blob?, blob.fetched = true → blob.editsThen = 0
  | .complete => ∀ phase ∈ σ.saving, ∀ blob ∈ phase.blob?, blob.editsThen = σ.edits
  | .replay => ∀ flush ∈ σ.syncing, ∀ op ∈ flush.phase.held, σ.Replays op → σ.edits = 0
  | .endFlush => ∀ flush ∈ σ.syncing, 0 < flush.synced → σ.pendingChanges = 0
  | _ => True

instance (σ : DocumentSave) (a : DocumentSaveStep) : Decidable (SoundStep σ a) := by
  cases a <;> unfold SoundStep <;> infer_instance

/-! ## What a run keeps -/

structure Keeps (σ : DocumentSave) : Prop where
  stored_le : σ.stored ≤ σ.edits
  counted : σ.edits ≤ σ.stored + σ.pendingChanges
  blob : ∀ phase ∈ σ.saving, ∀ blob ∈ phase.blob?,
    blob.editsThen ≤ σ.edits ∧ σ.edits ≤ blob.editsThen + σ.pendingChanges
  uploaded : ∀ blob, σ.saving = some (.uploaded blob) → σ.stored = blob.editsThen

theorem Keeps.stored_eq {σ : DocumentSave} (keeps : Keeps σ) (pending : σ.pendingChanges = 0) :
    σ.stored = σ.edits := by
  have counted := keeps.counted
  rw [pending, Nat.add_zero] at counted
  exact Nat.le_antisymm keeps.stored_le counted

theorem Keeps.saved {σ : DocumentSave} (keeps : Keeps σ) : Saved σ :=
  ⟨fun pending _ => keeps.stored_eq pending, keeps.counted⟩

theorem Keeps.start (documentId : Uuid) (queue : Offline Uuid) (isOffline : Bool) :
    Keeps (start documentId queue isOffline) :=
  ⟨Nat.le_refl 0, Nat.le_refl 0, nofun, nofun⟩

/-- What the law is about is the same. -/
structure SameSave (σ σ' : DocumentSave) : Prop where
  edits : σ'.edits = σ.edits
  stored : σ'.stored = σ.stored
  pendingChanges : σ'.pendingChanges = σ.pendingChanges

section
variable {σ σ' : DocumentSave}

/-- A step that is about the queue or a timer, or begins or gives up a save. -/
theorem Keeps.of_same (keeps : Keeps σ) (same : SameSave σ σ')
    (saving : σ'.saving = σ.saving ∨ ∀ phase ∈ σ'.saving, phase.blob? = none) : Keeps σ' := by
  obtain ⟨edits, stored, pending⟩ := same
  refine ⟨?_, ?_, ?_, ?_⟩
  · rw [stored, edits]
    exact keeps.stored_le
  · rw [stored, edits, pending]
    exact keeps.counted
  · rw [edits, pending]
    intro phase mem blob here
    obtain same | none_made := saving
    · exact keeps.blob phase (same ▸ mem) blob here
    · rw [none_made phase mem] at here
      cases here
  · rw [stored]
    intro blob here
    obtain same | none_made := saving
    · exact keeps.uploaded blob (same ▸ here)
    · cases none_made _ here

theorem enqueue_spec {context : EnqueueContext} (h : σ.enqueue context = some σ') :
    ∃ queue, σ' = { σ with queue } := by
  obtain ⟨queue, -, rfl⟩ := Option.map_eq_some_iff.mp h
  exact ⟨queue, rfl⟩

/-- A save is refused, is put into the queue, or begins. -/
theorem Keeps.save (keeps : Keeps σ) {context : EnqueueContext}
    (h : σ.save context = some σ') : Keeps σ' := by
  have stopped : Keeps { σ with debounceTimer := false } :=
    keeps.of_same ⟨rfl, rfl, rfl⟩ (Or.inl rfl)
  rw [DocumentSave.save, performSave] at h
  split at h
  · cases h
    exact stopped
  · split at h
    · obtain ⟨queue, rfl⟩ := enqueue_spec h
      exact stopped.of_same ⟨rfl, rfl, rfl⟩ (Or.inl rfl)
    · cases h
      refine stopped.of_same ⟨rfl, rfl, rfl⟩ (Or.inr fun phase mem => ?_)
      cases mem
      rfl

/-- An edit is counted as made and as pending. -/
theorem Keeps.edited (keeps : Keeps σ) (isDirty : Bool) :
    Keeps { σ with
      edits := σ.edits + 1, isDirty, pendingChanges := σ.pendingChanges + 1 } := by
  refine ⟨Nat.le_succ_of_le keeps.stored_le, Nat.succ_le_succ keeps.counted, ?_, keeps.uploaded⟩
  intro phase mem blob here
  obtain ⟨made, pending⟩ := keeps.blob phase mem blob here
  exact ⟨Nat.le_succ_of_le made, Nat.succ_le_succ pending⟩

/-- Nothing is lost when nothing is missing in the last version. -/
theorem Keeps.clearPending (keeps : Keeps σ) (complete : σ.stored = σ.edits)
    (blobs : ∀ phase ∈ σ.saving, ∀ blob ∈ phase.blob?, blob.editsThen = σ.edits) :
    Keeps σ.clearPending := by
  refine ⟨keeps.stored_le, Nat.le_of_eq complete.symm, ?_, keeps.uploaded⟩
  intro phase mem blob here
  have made := blobs phase mem blob here
  exact ⟨Nat.le_of_eq made, Nat.le_of_eq made.symm⟩

theorem Keeps.clear_of_idle (keeps : Keeps σ) (idle : σ.pendingChanges = 0) :
    Keeps σ.clearPending := by
  refine keeps.clearPending (keeps.stored_eq idle) fun phase mem blob here => ?_
  obtain ⟨made, pending⟩ := keeps.blob phase mem blob here
  rw [idle, Nat.add_zero] at pending
  exact Nat.le_antisymm made pending

/-! ## Steps -/

theorem Keeps.prepare (keeps : Keeps σ) (fetched : Bool) :
    Keeps { σ with saving := some (.prepared ⟨σ.edits, fetched⟩) } := by
  refine ⟨keeps.stored_le, keeps.counted, fun phase mem blob here => ?_, fun blob here => ?_⟩
  · cases mem
    cases here
    exact ⟨Nat.le_refl _, Nat.le_add_right _ _⟩
  · cases here

theorem Keeps.upload (keeps : Keeps σ) {blob : SaveBlob}
    (saving : σ.saving = some (.prepared blob)) (content : blob.edits = blob.editsThen) :
    Keeps { σ with stored := blob.edits, saving := some (.uploaded blob) } := by
  obtain ⟨made, pending⟩ := keeps.blob _ saving blob rfl
  refine ⟨content ▸ made, content ▸ pending, fun phase mem blob' here => ?_, ?_⟩
  · cases mem
    cases here
    exact ⟨made, pending⟩
  · intro blob' here
    cases here
    exact content

theorem Keeps.complete (keeps : Keeps σ) {blob : SaveBlob}
    (saving : σ.saving = some (.uploaded blob)) (current : blob.editsThen = σ.edits) :
    Keeps { σ.clearPending with saving := none } := by
  have cleared : Keeps σ.clearPending := by
    refine keeps.clearPending ((keeps.uploaded blob saving).trans current) ?_
    intro phase mem blob' here
    rw [saving] at mem
    cases mem
    cases here
    exact current
  exact cleared.of_same ⟨rfl, rfl, rfl⟩ (Or.inr nofun)

/-- The bytes of the server lack every edit. -/
theorem Keeps.replayOperation (keeps : Keeps σ) {op : PendingOperation Uuid}
    (unedited : σ.Replays op → σ.edits = 0) : Keeps (σ.replayOperation op) := by
  rw [DocumentSave.replayOperation]
  split
  · have none_made := unedited ‹_›
    refine ⟨Nat.zero_le _, ?_, keeps.blob, fun blob here => ?_⟩
    · rw [none_made]
      exact Nat.zero_le _
    · have made := (keeps.blob _ here blob rfl).1
      rw [none_made] at made
      exact (Nat.le_zero.mp made).symm
  · exact keeps

theorem Keeps.step (keeps : Keeps σ) {a : DocumentSaveStep} (sound : σ.SoundStep a)
    (h : σ.step a = some σ') : Keeps σ' := by
  cases a with
  | edit priority context =>
    have edited := keeps.edited true
    cases priority with
    | immediate => exact edited.save h
    | debounced =>
      cases h
      exact edited.of_same ⟨rfl, rfl, rfl⟩ (Or.inl rfl)
    | auto =>
      cases h
      exact edited
  | save context => exact keeps.save h
  | timerFires context => exact keeps.save (Option.ite_none_right_eq_some.mp h).2
  | autoSave context =>
    rw [DocumentSave.step] at h
    split at h
    · exact keeps.save h
    · cases h
      exact keeps
  | cancelPendingSave =>
    cases h
    exact keeps.of_same ⟨rfl, rfl, rfl⟩ (Or.inl rfl)
  | prepare returns =>
    obtain ⟨-, h⟩ := Option.ite_none_right_eq_some.mp h
    cases h
    exact keeps.prepare _
  | upload =>
    rw [DocumentSave.step] at h
    split at h
    case h_2 => cases h
    case h_1 blob saving =>
      cases h
      exact keeps.upload saving (SaveBlob.edits_eq (sound _ saving blob rfl))
  | complete =>
    rw [DocumentSave.step] at h
    split at h
    case h_2 => cases h
    case h_1 blob saving =>
      cases h
      exact keeps.complete saving (sound _ saving blob rfl)
  | fail context =>
    obtain ⟨-, h⟩ := Option.ite_none_right_eq_some.mp h
    obtain ⟨queue, rfl⟩ := enqueue_spec h
    exact keeps.of_same ⟨rfl, rfl, rfl⟩ (Or.inr nofun)
  | goOffline =>
    cases h
    exact keeps.of_same ⟨rfl, rfl, rfl⟩ (Or.inl rfl)
  | goOnline now =>
    cases h
    rw [flushOfflineQueue]
    split <;> exact keeps.of_same ⟨rfl, rfl, rfl⟩ (Or.inl rfl)
  | peek =>
    rw [DocumentSave.step] at h
    split at h
    · cases h
      exact keeps.of_same ⟨rfl, rfl, rfl⟩ (Or.inl rfl)
    · cases h
  | dequeue =>
    rw [DocumentSave.step] at h
    split at h
    · cases h
      exact keeps.of_same ⟨rfl, rfl, rfl⟩ (Or.inl rfl)
    · cases h
  | replay =>
    rw [DocumentSave.step] at h
    split at h
    case h_2 => cases h
    case h_1 now op synced syncing =>
      cases h
      have replayed := keeps.replayOperation (sound _ syncing op (List.mem_singleton_self op))
      exact replayed.of_same ⟨rfl, rfl, rfl⟩ (Or.inl rfl)
  | replayFails retryTime writes =>
    rw [DocumentSave.step] at h
    split at h
    · cases h
      exact keeps.of_same ⟨rfl, rfl, rfl⟩ (Or.inl rfl)
    · cases h
  | endFlush =>
    rw [DocumentSave.step] at h
    split at h
    case h_2 => cases h
    case h_1 now synced syncing =>
      cases h
      split
      · have cleared := keeps.clear_of_idle (sound _ syncing ‹_›)
        exact cleared.of_same ⟨rfl, rfl, rfl⟩ (Or.inl rfl)
      · exact keeps.of_same ⟨rfl, rfl, rfl⟩ (Or.inl rfl)

/-- An edit that was made since the preparation of a save is lost when the save completes. -/
theorem Keeps.complete_iff (keeps : Keeps σ) (h : σ.step .complete = some σ') :
    Saved σ' ↔ σ.SoundStep .complete := by
  refine ⟨fun saved phase mem blob here => ?_, fun sound => (keeps.step sound h).saved⟩
  rw [DocumentSave.step] at h
  split at h
  case h_2 => cases h
  case h_1 done saving =>
    cases h
    rw [saving] at mem
    cases mem
    cases here
    exact (keeps.uploaded blob saving).symm.trans (saved.clean rfl rfl)

end

/-- Clean means saved in every run of sound steps, and a save may complete just when nothing was
edited since its preparation. -/
theorem clean_means_saved (documentId : Uuid) (queue : Offline Uuid) (isOffline : Bool)
    (σ : DocumentSave) (run : Reaches step SoundStep (start documentId queue isOffline) σ) :
    Saved σ ∧ ∀ σ', σ.step .complete = some σ' → (Saved σ' ↔ σ.SoundStep .complete) := by
  have keeps : Keeps σ :=
    run.invariant (fun _ _ _ keeps sound h => keeps.step sound h) (Keeps.start ..)
  exact ⟨keeps.saved, fun _ h => keeps.complete_iff h⟩

end DocumentSave

def emptyQueue : Offline Uuid := ⟨⟨some [], []⟩, [], []⟩

def enqueueAt (id : Nat) (now : Int) : EnqueueContext := ⟨id, now, ⟨.stored, .stored⟩⟩

def openedDocument : DocumentSave := .start (uuid "doc") emptyQueue false

/-- The first save fails, and the second one stores both edits. -/
theorem clean_means_saved_in_turn : ∃ σ, DocumentSave.Saved σ ∧
    (∀ σ', σ.step .complete = some σ' → (DocumentSave.Saved σ' ↔ σ.SoundStep .complete)) ∧
    σ.edits = 2 ∧ σ.stored = 2 ∧ σ.pendingChanges = 0 := by
  obtain ⟨σ, run, edits, stored, pending⟩ := exists_reaches_of_runAll DocumentSave.step
    DocumentSave.SoundStep openedDocument
    [.edit .immediate (enqueueAt 0 0), .prepare true, .edit .debounced (enqueueAt 1 1),
      .fail (enqueueAt 2 2), .timerFires (enqueueAt 3 3), .prepare true, .upload, .complete]
    (fun σ => σ.edits = 2 ∧ σ.stored = 2 ∧ σ.pendingChanges = 0) (by decide)
  obtain ⟨saved, exact_when⟩ := DocumentSave.clean_means_saved (uuid "doc") emptyQueue false σ run
  exact ⟨σ, saved, exact_when, edits, stored, pending⟩

/-- An edit between the preparation and the end of a save is neither stored nor counted. -/
theorem edit_during_save_lost : ∃ σ, Reaches DocumentSave.step always openedDocument σ ∧
    σ.edits = 2 ∧ σ.stored = 1 ∧ σ.pendingChanges = 0 ∧ σ.isDirty = false ∧
    ¬DocumentSave.Saved σ := by
  obtain ⟨σ, run, edits, stored, pending, dirty⟩ := exists_reaches_of_runAll DocumentSave.step
    always openedDocument
    [.edit .immediate (enqueueAt 0 0), .prepare true, .edit .auto (enqueueAt 1 1), .upload,
      .complete]
    (fun σ => σ.edits = 2 ∧ σ.stored = 1 ∧ σ.pendingChanges = 0 ∧ σ.isDirty = false) (by decide)
  refine ⟨σ, run, edits, stored, pending, dirty, fun saved => ?_⟩
  have complete := saved.clean pending dirty
  rw [edits, stored] at complete
  cases complete

end GigaPdf
