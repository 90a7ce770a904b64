import GigaPdf.Storage.Files

/-!
# Concurrent saves of new versions

`create_version` and `restore_original` in steps, with the row lock of the document, the
failures of statements and of COMMIT, and the loss of a connection at any point: the
transaction then rolls back and the lock is free, while the request runs on until its next
statement.
-/

namespace GigaPdf

/-- How far a save is. `unsure` has seen COMMIT fail, and `absent` has looked, in a new
session and under the row lock, and found no such version. -/
inductive Phase
  | started
  | locked (d : StoredDocument)
  | uploaded (d : StoredDocument)
  | written (d : StoredDocument)
  | failed (d : StoredDocument)
  | unsure (d : StoredDocument)
  | absent (d : StoredDocument)
  | ending
  | done

/-- The document as the save has read it. -/
def Phase.document : Phase → Option StoredDocument
  | .locked d | .uploaded d | .written d | .failed d | .unsure d | .absent d => some d
  | .started | .ending | .done => none

/-- The phases of a session that has locked the row. -/
def Phase.locks : Phase → Bool
  | .locked _ | .uploaded _ | .written _ | .failed _ | .absent _ | .ending => true
  | .started | .unsure _ | .done => false

/-- The document of a save that may still commit. -/
def Phase.pending : Phase → Option StoredDocument
  | .locked d | .uploaded d | .written d => some d
  | _ => none

/-- The document of a save that may still commit and whose object is uploaded. -/
def Phase.uploadedFor : Phase → Option StoredDocument
  | .uploaded d | .written d => some d
  | _ => none

structure Save where
  id : Nat
  documentId : Uuid
  userId : String
  editGrant : Bool
  data : Bytes
  pageCount : Nat
  phase : Phase
  /-- The session's connection is up. -/
  connected : Bool

def Save.holdsLock (s : Save) : Bool := s.connected && s.phase.locks

structure Saves where
  world : World
  saves : Table Save.id

def Saves.start (w : World) : Saves := ⟨w, .empty⟩

/-- No save holds the row lock of a document. -/
def Saves.lockIsFree (σ : Saves) (documentId : Uuid) : Bool :=
  σ.saves.rows.all fun s => !(s.holdsLock && s.documentId = documentId)

def Saves.become (σ : Saves) (s : Save) (phase : Phase) (connected : Bool) : Saves :=
  { σ with
    saves := σ.saves.update s.id (fun t => { t with phase := phase, connected := connected })
      fun _ => rfl }

def nextVersion (d : StoredDocument) : Nat := d.currentVersion + 1

def nextKey (d : StoredDocument) : Key := getDocumentKey d.ownerId d.id (nextVersion d)

def Save.versionRow (s : Save) (d : StoredDocument) : DocumentVersion where
  documentId := d.id
  versionNumber := nextVersion d
  filePath := nextKey d
  fileSizeBytes := s.data.length
  content := s.data
  createdBy := s.userId
  encryptionKey := none
  isEncrypted := false

inductive CommitOutcome
  | committed | committedButReportsFailure | failed
deriving DecidableEq

inductive SaveStep
  | begin (id : Nat) (documentId : Uuid) (userId : String) (editGrant : Bool) (data : Bytes)
      (pageCount : Nat)
  | loseConnection (id : Nat)
  | lock (id : Nat)
  | refuse (id : Nat)
  | upload (id : Nat)
  | uploadFails (id : Nat) (landed : Bool)
  | write (id : Nat)
  | writeFails (id : Nat)
  | commit (id : Nat) (outcome : CommitOutcome)
  | verify (id : Nat)
  | verifyFails (id : Nat)
  | cleanUp (id : Nat) (deleted : Bool)
  | close (id : Nat)

section
variable (increment : Increment)

/-- The rows of a save on the committed database. -/
def Saves.rows (σ : Saves) (s : Save) (d : StoredDocument) : Option Db :=
  σ.world.db.addVersion increment d (s.versionRow d) s.pageCount

def Saves.act (σ : Saves) (s : Save) : SaveStep → Option Saves
  | .begin .. => none
  | .loseConnection _ => some (σ.become s s.phase false)
  | .lock _ =>
    match s.phase with
    | .started => do
      let d ← (σ.world.db.documents.find? s.documentId).filter fun d => !d.isDeleted
      if σ.lockIsFree s.documentId ∧ (d.ownerId = s.userId ∨ s.editGrant) then
        some (σ.become s (.locked d) true)
      else none
    | _ => none
  | .refuse _ =>
    match s.phase with
    | .started | .locked _ => some (σ.become s .done false)
    | _ => none
  | .upload _ =>
    match s.phase with
    | .locked d =>
      some { σ.become s (.uploaded d) s.connected with
        world := σ.world.uploadFile (nextKey d) s.data }
    | _ => none
  | .uploadFails _ landed =>
    match s.phase with
    | .locked d =>
      some { σ.become s .ending s.connected with
        world := if landed then σ.world.uploadFile (nextKey d) s.data else σ.world }
    | _ => none
  | .write _ =>
    match s.phase with
    | .uploaded d =>
      if s.connected ∧ (σ.rows increment s d).isSome then
        some (σ.become s (.written d) s.connected)
      else none
    | _ => none
  | .writeFails _ =>
    match s.phase with
    | .uploaded d => some (σ.become s (.failed d) s.connected)
    | _ => none
  | .commit _ outcome =>
    match s.phase with
    | .written d =>
      if outcome = .failed then some (σ.become s (.unsure d) false)
      else if s.connected then
        (σ.rows increment s d).map fun db =>
          { σ.become s (if outcome = .committed then .done else .unsure d) false with
            world := σ.world.withDb db }
      else none
    | _ => none
  | .verify _ =>
    match s.phase with
    | .unsure d =>
      if σ.lockIsFree s.documentId then
        if (σ.world.db.versions.find? (d.id, nextVersion d)).isSome then
          some (σ.become s .done false)
        else some (σ.become s (.absent d) true)
      else none
    | _ => none
  | .verifyFails _ =>
    match s.phase with
    | .unsure _ => some (σ.become s .done false)
    | _ => none
  | .cleanUp _ deleted =>
    match s.phase with
    | .failed d | .absent d =>
      some { σ.become s .ending s.connected with
        world :=
          if deleted then { σ.world with objects := deleteObjects σ.world.objects [nextKey d] }
          else σ.world }
    | _ => none
  | .close _ =>
    match s.phase with
    | .ending => some (σ.become s .done false)
    | _ => none

def SaveStep.save : SaveStep → Nat
  | .begin id .. | .loseConnection id | .lock id | .refuse id | .upload id | .uploadFails id _
  | .write id | .writeFails id | .commit id _ | .verify id | .verifyFails id | .cleanUp id _
  | .close id => id

def Saves.step (σ : Saves) : SaveStep → Option Saves
  | .begin id documentId userId editGrant data pageCount =>
    (σ.saves.insert?
      { id := id, documentId := documentId, userId := userId, editGrant := editGrant, data := data
        pageCount := pageCount, phase := .started, connected := false }).map
      fun saves => { σ with saves := saves }
  | step => (σ.saves.find? step.save).bind fun s => σ.act increment s step

end

/-- What a step of a save can do. -/
inductive Saves.Acts (increment : Increment) (σ : Saves) (s : Save) : SaveStep → Saves → Prop
  | loseConnection {id} : Acts increment σ s (.loseConnection id) (σ.become s s.phase false)
  | lock {id d} (found : ((σ.world.db.documents.find? s.documentId).filter fun d =>
      !d.isDeleted) = some d) (free : σ.lockIsFree s.documentId = true) :
      Acts increment σ s (.lock id) (σ.become s (.locked d) true)
  | refuse {id} : Acts increment σ s (.refuse id) (σ.become s .done false)
  | upload {id d} (phase : s.phase = .locked d) :
      Acts increment σ s (.upload id) { σ.become s (.uploaded d) s.connected with
        world := σ.world.uploadFile (nextKey d) s.data }
  | uploadFails {id landed d} (phase : s.phase = .locked d) :
      Acts increment σ s (.uploadFails id landed) { σ.become s .ending s.connected with
        world := if landed then σ.world.uploadFile (nextKey d) s.data else σ.world }
  | write {id d} (phase : s.phase = .uploaded d) :
      Acts increment σ s (.write id) (σ.become s (.written d) s.connected)
  | writeFails {id d} (phase : s.phase = .uploaded d) :
      Acts increment σ s (.writeFails id) (σ.become s (.failed d) s.connected)
  | commitFails {id d} (phase : s.phase = .written d) :
      Acts increment σ s (.commit id .failed) (σ.become s (.unsure d) false)
  | commit {id outcome d db} (phase : s.phase = .written d) (connected : s.connected = true)
      (rows : σ.rows increment s d = some db) :
      Acts increment σ s (.commit id outcome)
        { σ.become s (if outcome = .committed then .done else .unsure d) false with
          world := σ.world.withDb db }
  | verified {id} : Acts increment σ s (.verify id) (σ.become s .done false)
  | missing {id d} (phase : s.phase = .unsure d) (free : σ.lockIsFree s.documentId = true)
      (absent : (σ.world.db.versions.find? (d.id, nextVersion d)).isSome = false) :
      Acts increment σ s (.verify id) (σ.become s (.absent d) true)
  | verifyFails {id} : Acts increment σ s (.verifyFails id) (σ.become s .done false)
  | cleanUp {id deleted d} (phase : s.phase = .failed d ∨ s.phase = .absent d) :
      Acts increment σ s (.cleanUp id deleted) { σ.become s .ending s.connected with
        world :=
          if deleted then { σ.world with objects := deleteObjects σ.world.objects [nextKey d] }
          else σ.world }
  | close {id} : Acts increment σ s (.close id) (σ.become s .done false)

theorem Saves.act_cases {increment : Increment} {σ τ : Saves} {s : Save} {step : SaveStep}
    (h : σ.act increment s step = some τ) : Acts increment σ s step τ := by
  cases step with
  | begin => cases h
  | loseConnection =>
    cases h
    exact .loseConnection
  | lock id =>
    simp only [act] at h
    split at h
    · simp only [Option.bind_eq_bind, Option.bind_eq_some_iff, Option.ite_none_right_eq_some,
        Option.some.injEq] at h
      obtain ⟨d, found, ⟨free, -⟩, rfl⟩ := h
      exact .lock found free
    · cases h
  | refuse id =>
    simp only [act] at h
    split at h <;> cases h <;> exact .refuse
  | upload id =>
    simp only [act] at h
    split at h
    · next d phase =>
      cases h
      exact .upload phase
    · cases h
  | uploadFails id landed =>
    simp only [act] at h
    split at h
    · next d phase =>
      cases h
      exact .uploadFails phase
    · cases h
  | write id =>
    simp only [act] at h
    split at h
    · next d phase =>
      simp only [Option.ite_none_right_eq_some, Option.some.injEq] at h
      obtain ⟨-, rfl⟩ := h
      exact .write phase
    · cases h
  | writeFails id =>
    simp only [act] at h
    split at h
    · next d phase =>
      cases h
      exact .writeFails phase
    · cases h
  | commit id outcome =>
    simp only [act] at h
    split at h
    · next d phase =>
      split at h
      · next failed =>
        cases h
        rw [failed]
        exact .commitFails phase
      · simp only [Option.ite_none_right_eq_some, Option.map_eq_some_iff] at h
        obtain ⟨connected, db, rows, rfl⟩ := h
        exact .commit phase connected rows
    · cases h
  | verify id =>
    simp only [act] at h
    split at h
    · next d phase =>
      simp only [Option.ite_none_right_eq_some] at h
      obtain ⟨free, h⟩ := h
      split at h
      · cases h
        exact .verified
      · next absent =>
        cases h
        exact .missing phase free (by simpa using absent)
    · cases h
  | verifyFails id =>
    simp only [act] at h
    split at h <;> cases h
    exact .verifyFails
  | cleanUp id deleted =>
    simp only [act] at h
    split at h
    · next d phase =>
      cases h
      exact .cleanUp (.inl phase)
    · next d phase =>
      cases h
      exact .cleanUp (.inr phase)
    · cases h
  | close id =>
    simp only [act] at h
    split at h <;> cases h
    exact .close

/-- Another save of the document has committed a version, or has uploaded one and may. -/
def Saves.overtaken (σ : Saves) (s : Save) (d : StoredDocument) : Bool :=
  (σ.world.db.documents.find? d.id).any (fun row => row.currentVersion ≠ d.currentVersion) ||
    σ.saves.rows.any fun other =>
      other.id ≠ s.id && other.documentId = s.documentId && other.holdsLock &&
        other.phase.uploadedFor.isSome

/-- The step puts or deletes the object of the next version. -/
def SaveStep.touchesObject : SaveStep → Bool
  | .upload _ | .uploadFails _ true | .cleanUp _ true => true
  | _ => false

/-- A save that has lost its connection, and with it the row lock, neither uploads nor
deletes once another save of the document has uploaded. -/
def locksKept (σ : Saves) (step : SaveStep) : Prop :=
  step.touchesObject = true → ∀ s ∈ σ.saves.rows, s.id = step.save →
    ∀ d ∈ s.phase.document, s.connected = true ∨ σ.overtaken s d = false

instance (σ : Saves) (step : SaveStep) : Decidable (locksKept σ step) := by
  unfold locksKept
  infer_instance

/-! ## The invariant -/

/-- What is known of a save: the document it has read is at most outdated, and while it holds
the row lock it is the row itself, and the object it has uploaded is its own. -/
structure SaveSound (w : World) (s : Save) : Prop where
  loaded : ∀ d ∈ s.phase.document, d.id = s.documentId ∧
    ∃ row ∈ w.db.documents.rows, row.id = d.id ∧ row.ownerId = d.ownerId ∧
      d.currentVersion ≤ row.currentVersion
  current : s.holdsLock = true → ∀ d ∈ s.phase.document, ∀ row ∈ w.db.documents.rows,
    row.id = d.id → row.currentVersion = d.currentVersion
  fresh : s.holdsLock = true → ∀ d ∈ s.phase.pending, w.db.documents.find? d.id = some d
  stored : s.holdsLock = true → ∀ d ∈ s.phase.uploadedFor, w.objects (nextKey d) = some s.data

structure SavesSound (σ : Saves) : Prop where
  files : FilesStored σ.world
  exclusive : ∀ s ∈ σ.saves.rows, ∀ t ∈ σ.saves.rows, s.holdsLock = true → t.holdsLock = true →
    s.documentId = t.documentId → s.id = t.id
  saves : ∀ s ∈ σ.saves.rows, SaveSound σ.world s

theorem mem_become {σ : Saves} {s t : Save} {phase : Phase} {connected : Bool}
    (hs : s ∈ σ.saves.rows) :
    t ∈ (σ.become s phase connected).saves.rows ↔
      t = { s with phase := phase, connected := connected } ∨ t ∈ σ.saves.rows ∧ t.id ≠ s.id := by
  simp only [Saves.become, Table.mem_update]
  constructor
  · rintro ⟨row, hrow, rfl⟩
    by_cases hid : row.id = s.id
    · have := σ.saves.eq_of_key_eq hrow hs hid
      subst this
      simp
    · simp [hid, hrow]
  · rintro (rfl | ⟨ht, hid⟩)
    · exact ⟨s, hs, by simp⟩
    · exact ⟨t, ht, by simp [hid]⟩

/-- A save moves on, and the world with it. -/
theorem SavesSound.become {σ : Saves} (h : SavesSound σ) {s : Save} (hs : s ∈ σ.saves.rows)
    {phase : Phase} {connected : Bool} {world : World} (files : FilesStored world)
    (own : SaveSound world { s with phase := phase, connected := connected })
    (lock : (connected && phase.locks) = true →
      s.holdsLock = true ∨ σ.lockIsFree s.documentId = true)
    (others : ∀ t ∈ σ.saves.rows, t.id ≠ s.id → SaveSound world t) :
    SavesSound { σ.become s phase connected with world := world } := by
  have alone : (connected && phase.locks) = true → ∀ t ∈ σ.saves.rows, t.holdsLock = true →
      t.documentId = s.documentId → t.id = s.id := by
    intro hlock t ht holds hdoc
    rcases lock hlock with held | free
    · exact h.exclusive t ht s hs holds held hdoc
    · have := List.all_eq_true.mp free t ht
      simp [holds, hdoc] at this
  refine ⟨files, fun t ht u hu tholds uholds hdoc => ?_, fun t ht => ?_⟩
  · rcases (mem_become hs).mp ht with rfl | ⟨ht, hne⟩ <;>
      rcases (mem_become hs).mp hu with rfl | ⟨hu, hne'⟩
    · rfl
    · exact absurd (alone tholds u hu uholds hdoc.symm) hne'
    · exact absurd (alone uholds t ht tholds hdoc) hne
    · exact h.exclusive t ht u hu tholds uholds hdoc
  · rcases (mem_become hs).mp ht with rfl | ⟨ht, hne⟩
    · exact own
    · exact others t ht hne

theorem pending_document {phase : Phase} {d : StoredDocument} (h : d ∈ phase.pending) :
    d ∈ phase.document := by
  cases phase <;> first | exact h | cases h

theorem uploadedFor_document {phase : Phase} {d : StoredDocument} (h : d ∈ phase.uploadedFor) :
    d ∈ phase.document := by
  cases phase <;> first | exact h | cases h

/-- A save that no longer has a document to write. -/
theorem saveSound_of_none {w : World} {s : Save} (h : s.phase.document = none) :
    SaveSound w s := by
  have none : ∀ d, d ∉ s.phase.document := by simp [h]
  refine ⟨fun d hd => absurd hd (none d), fun _ d hd => absurd hd (none d), fun _ d hd => ?_,
    fun _ d hd => ?_⟩
  · exact absurd (pending_document hd) (none d)
  · exact absurd (uploadedFor_document hd) (none d)

theorem holdsLock_of {s : Save} {phase : Phase} (holds : (s.connected && phase.locks) = true)
    (locks : s.phase.locks = true) : s.holdsLock = true :=
  Bool.and_eq_true_iff.mpr ⟨(Bool.and_eq_true_iff.mp holds).1, locks⟩

/-- A save moves on in its session. -/
theorem SaveSound.advance {w : World} {s : Save} (h : SaveSound w s) {phase : Phase}
    (locks : s.phase.locks = true)
    (document : ∀ d ∈ phase.document, d ∈ s.phase.document)
    (pending : ∀ d ∈ phase.pending, d ∈ s.phase.pending)
    (uploaded : ∀ d ∈ phase.uploadedFor, d ∈ s.phase.uploadedFor) :
    SaveSound w { s with phase := phase } := by
  have held : ({ s with phase := phase } : Save).holdsLock = true → s.holdsLock = true :=
    fun holds => holdsLock_of holds locks
  exact ⟨fun d hd => h.loaded d (document d hd), fun holds d hd => h.current (held holds) d (document d hd),
    fun holds d hd => h.fresh (held holds) d (pending d hd),
    fun holds d hd => h.stored (held holds) d (uploaded d hd)⟩

/-- A save that holds no lock only knows which document it has read. -/
theorem SaveSound.unlocked {w : World} {s t : Save} (h : SaveSound w s)
    (hdoc : t.documentId = s.documentId) (same : ∀ d ∈ t.phase.document, d ∈ s.phase.document)
    (holds : t.holdsLock = false) : SaveSound w t := by
  refine ⟨fun d hd => hdoc ▸ h.loaded d (same d hd), ?_, ?_, ?_⟩ <;>
    (intro held; rw [holds] at held; cases held)

theorem nextKey_ne {d e : StoredDocument} (h : d.id ≠ e.id) : nextKey d ≠ nextKey e := by
  intro same
  simp only [nextKey, getDocumentKey_eq] at same
  exact h (versionKey_inj (by decide) (by decide) same).2.1

/-- The key of the next version of a document whose row still has the version that was read. -/
theorem SavesSound.nextKey_unused {σ : Saves} (h : SavesSound σ) {s : Save}
    (hs : s ∈ σ.saves.rows) {d : StoredDocument} (hd : d ∈ s.phase.document)
    (current : ∀ row ∈ σ.world.db.documents.rows, row.id = d.id →
      row.currentVersion = d.currentVersion) :
    ∀ v ∈ σ.world.db.versions.rows, v.filePath ≠ nextKey d := by
  obtain ⟨-, row, hrow, hid, howner, -⟩ := (h.saves s hs).loaded d hd
  have unused := h.files.nextKey_unused hrow
  rw [howner, hid, current row hrow hid] at unused
  exact unused

/-- A save with its lock has not been overtaken. -/
theorem SavesSound.not_overtaken {σ : Saves} (h : SavesSound σ) {s : Save}
    (hs : s ∈ σ.saves.rows) (holds : s.holdsLock = true) {d : StoredDocument}
    (hd : d ∈ s.phase.document) : σ.overtaken s d = false := by
  rw [Saves.overtaken, Bool.or_eq_false_iff]
  constructor
  · rw [Option.any_eq_false]
    intro row hrow
    obtain ⟨hrow, hid⟩ := Table.find?_eq_some.mp hrow
    simpa using (h.saves s hs).current holds d hd row hrow hid
  · rw [List.any_eq_false]
    intro t ht challenged
    simp only [Bool.and_eq_true, decide_eq_true_eq] at challenged
    obtain ⟨⟨⟨hne, hdoc⟩, tholds⟩, -⟩ := challenged
    exact hne (h.exclusive t ht s hs tholds holds hdoc)

/-- An admitted step does not touch the object of a save that has got ahead. -/
theorem SavesSound.kept {σ : Saves} (h : SavesSound σ) {s : Save} (hs : s ∈ σ.saves.rows)
    {step : SaveStep} (hid : s.id = step.save) (kept : locksKept σ step)
    (touches : step.touchesObject = true) (locks : s.phase.locks = true) {d : StoredDocument}
    (hd : d ∈ s.phase.document) : σ.overtaken s d = false := by
  rcases kept touches s hs hid d hd with connected | free
  · refine h.not_overtaken hs ?_ hd
    rw [Save.holdsLock, connected, locks]
    rfl
  · exact free

/-- An object is put or deleted where no version is and no other save relies on it. -/
theorem SavesSound.touch {σ : Saves} (h : SavesSound σ) {s : Save} (hs : s ∈ σ.saves.rows)
    {d : StoredDocument} (hd : d ∈ s.phase.document) (ahead : σ.overtaken s d = false)
    {objects : Key → Option Bytes} (same : ∀ k, k ≠ nextKey d → objects k = σ.world.objects k) :
    FilesStored { σ.world with objects := objects } ∧
      ∀ t ∈ σ.saves.rows, t.id ≠ s.id → SaveSound { σ.world with objects := objects } t := by
  rw [Saves.overtaken, Bool.or_eq_false_iff, List.any_eq_false] at ahead
  obtain ⟨hcurrent, hothers⟩ := ahead
  have current : ∀ row ∈ σ.world.db.documents.rows, row.id = d.id →
      row.currentVersion = d.currentVersion := by
    intro row hrow hid
    rw [← hid, Table.find?_of_mem hrow] at hcurrent
    simpa using hcurrent
  constructor
  · refine h.files.withObjects (fun k hk => same k ?_) fun _ hid => hid
    have unused := h.nextKey_unused hs hd current
    rw [nextKey, getDocumentKey_eq] at unused ⊢
    exact h.files.not_refersTo unused hk
  · intro t ht hne
    obtain ⟨loaded, tcurrent, fresh, stored⟩ := h.saves t ht
    refine ⟨loaded, tcurrent, fresh, fun holds e he => ?_⟩
    refine (same _ (nextKey_ne fun hid => ?_)).trans (stored holds e he)
    -- It would be a save of the same document that holds the lock and has uploaded.
    have hdoc : e ∈ t.phase.document := uploadedFor_document he
    have same_document : t.documentId = s.documentId := by
      rw [← (loaded e hdoc).1, hid, ((h.saves s hs).loaded d hd).1]
    refine hothers t ht ?_
    simp only [Bool.and_eq_true, decide_eq_true_eq]
    exact ⟨⟨⟨hne, same_document⟩, holds⟩, Option.isSome_iff_exists.mpr ⟨e, he⟩⟩

/-! ## Steps -/

section
variable {increment : Increment} {σ τ : Saves} {s : Save}

theorem SavesSound.loseConnection (h : SavesSound σ) (hs : s ∈ σ.saves.rows) :
    SavesSound (σ.become s s.phase false) :=
  h.become hs h.files ((h.saves s hs).unlocked rfl (fun _ hd => hd) rfl) (by simp)
    fun t ht _ => h.saves t ht

/-- The session ends. -/
theorem SavesSound.finish (h : SavesSound σ) (hs : s ∈ σ.saves.rows) :
    SavesSound (σ.become s .done false) :=
  h.become hs h.files (saveSound_of_none rfl) (by simp) fun t ht _ => h.saves t ht

theorem SavesSound.lock (h : SavesSound σ) (hs : s ∈ σ.saves.rows) {d : StoredDocument}
    (hd : (σ.world.db.documents.find? s.documentId).filter (fun d => !d.isDeleted) = some d)
    (free : σ.lockIsFree s.documentId = true) : SavesSound (σ.become s (.locked d) true) := by
  obtain ⟨hid, hfind, -⟩ := find?_filter hd
  have hrow := (Table.find?_eq_some.mp hfind).1
  refine h.become hs h.files ?_ (fun _ => .inr free) fun t ht _ => h.saves t ht
  constructor
  · rintro _ ⟨⟩
    exact ⟨hid, d, hrow, rfl, rfl, Nat.le_refl _⟩
  · rintro - _ ⟨⟩ row hrow' hid'
    rw [σ.world.db.documents.eq_of_key_eq hrow' hrow hid']
  · rintro - _ ⟨⟩
    exact hfind
  · rintro - _ ⟨⟩

theorem SavesSound.upload (h : SavesSound σ) (hs : s ∈ σ.saves.rows) {d : StoredDocument}
    (hphase : s.phase = .locked d) (ahead : σ.overtaken s d = false) :
    SavesSound { σ.become s (.uploaded d) s.connected with
      world := σ.world.uploadFile (nextKey d) s.data } := by
  have hd : d ∈ s.phase.document := by rw [hphase]; rfl
  obtain ⟨files, others⟩ := h.touch hs hd ahead (fun _ hk => @putObject_other _ _ _ s.data hk)
  have held : (s.connected && (Phase.uploaded d).locks) = true → s.holdsLock = true :=
    fun holds => holdsLock_of holds (by rw [hphase]; rfl)
  refine h.become hs files ?_ (fun holds => .inl (held holds)) others
  have sound := h.saves s hs
  constructor
  · rintro _ ⟨⟩
    exact sound.loaded d hd
  · rintro holds _ ⟨⟩
    exact sound.current (held holds) d hd
  · rintro holds _ ⟨⟩
    exact sound.fresh (held holds) d (by rw [hphase]; rfl)
  · rintro - _ ⟨⟩
    exact if_pos rfl

/-- The session goes on without a document to write; it may have put or deleted the object. -/
theorem SavesSound.endWrite (h : SavesSound σ) (hs : s ∈ σ.saves.rows) (locks : s.phase.locks = true)
    {d : StoredDocument} (hd : d ∈ s.phase.document) {touched : Bool} {objects : Key → Option Bytes}
    (ahead : touched = true → σ.overtaken s d = false)
    (same : ∀ k, k ≠ nextKey d → objects k = σ.world.objects k) :
    SavesSound { σ.become s .ending s.connected with
      world := if touched then { σ.world with objects := objects } else σ.world } := by
  have lock : (s.connected && Phase.ending.locks) = true →
      s.holdsLock = true ∨ σ.lockIsFree s.documentId = true :=
    fun holds => .inl (holdsLock_of holds locks)
  cases touched with
  | false => exact h.become hs h.files (saveSound_of_none rfl) lock fun t ht _ => h.saves t ht
  | true =>
    obtain ⟨files, others⟩ := h.touch hs hd (ahead rfl) same
    exact h.become hs files (saveSound_of_none rfl) lock others

theorem SavesSound.write (h : SavesSound σ) (hs : s ∈ σ.saves.rows) {d : StoredDocument}
    (hphase : s.phase = .uploaded d) {phase : Phase} (next : phase = .written d ∨ phase = .failed d) :
    SavesSound (σ.become s phase s.connected) := by
  have locks : s.phase.locks = true := by rw [hphase]; rfl
  refine h.become hs h.files ?_ (fun holds => .inl (holdsLock_of holds locks)) fun t ht _ => h.saves t ht
  refine (h.saves s hs).advance locks ?_ ?_ ?_ <;> rw [hphase] <;>
    rcases next with rfl | rfl <;> rintro _ ⟨⟩ <;> rfl

/-- The version is committed: the outcome of the whole save, had it been alone. -/
theorem rows_saveVersion {d : StoredDocument} {db : Db} (hrows : σ.rows increment s d = some db)
    (stored : σ.world.objects (nextKey d) = some s.data) :
    σ.world.saveVersion increment d s.data s.pageCount s.userId = σ.world.withDb db := by
  have put : σ.world.uploadFile (nextKey d) s.data = σ.world := by
    have : putObject σ.world.objects (nextKey d) s.data = σ.world.objects := by
      funext k
      unfold putObject
      split
      · rename_i hk
        rw [hk, stored]
      · rfl
    simp only [World.uploadFile, this]
  change (σ.world.uploadFile (nextKey d) s.data).rowsForUploadedObject (nextKey d)
    (fun db => db.addVersion increment d (s.versionRow d) s.pageCount) = _
  rw [put, World.rowsForUploadedObject, show
    σ.world.db.addVersion increment d (s.versionRow d) s.pageCount = some db from hrows]
  rfl

theorem SavesSound.commit (h : SavesSound σ) (hs : s ∈ σ.saves.rows) {d : StoredDocument}
    (hphase : s.phase = .written d) (connected : s.connected = true) {db : Db}
    (hrows : σ.rows increment s d = some db) {phase : Phase}
    (next : phase = .done ∨ phase = .unsure d) :
    SavesSound { σ.become s phase false with world := σ.world.withDb db } := by
  have holds : s.holdsLock = true := by
    rw [Save.holdsLock, connected, hphase]
    rfl
  have hd : d ∈ s.phase.document := by rw [hphase]; rfl
  have sound := h.saves s hs
  have hfind := sound.fresh holds d (by rw [hphase]; rfl)
  have stored := sound.stored holds d (by rw [hphase]; rfl)
  have hold := (Table.find?_eq_some.mp hfind).1
  obtain ⟨hdocs, -, -⟩ := addVersion_spec hrows
  let d' : StoredDocument :=
    { d with
      currentVersion := nextVersion d, pageCount := s.pageCount
      fileSizeBytes := some s.data.length }
  have listed : ∀ x, x ∈ db.documents.rows ↔
      x = d' ∨ x ∈ σ.world.db.documents.rows ∧ x.id ≠ d.id := by
    intro x
    rw [hdocs]
    exact mem_flush_iff (d := d') hfind
  -- What a save has read stays at most outdated.
  have loaded : ∀ t, SaveSound σ.world t → ∀ e ∈ t.phase.document, e.id = t.documentId ∧
      ∃ row ∈ db.documents.rows, row.id = e.id ∧ row.ownerId = e.ownerId ∧
        e.currentVersion ≤ row.currentVersion := by
    intro t ht e he
    obtain ⟨hid, row, hrow, hrowid, howner, hle⟩ := ht.loaded e he
    refine ⟨hid, ?_⟩
    by_cases hsame : row.id = d.id
    · have := σ.world.db.documents.eq_of_key_eq hrow hold hsame
      subst this
      exact ⟨d', (listed d').mpr (.inl rfl), hrowid, howner, Nat.le_succ_of_le hle⟩
    · exact ⟨row, (listed row).mpr (.inr ⟨hrow, hsame⟩), hrowid, howner, hle⟩
  refine h.become hs ?_ ?_ (by simp) fun t ht hne => ?_
  · rw [← rows_saveVersion hrows stored]
    exact h.files.saveVersion hfind s.data s.pageCount s.userId
  · rcases next with rfl | rfl
    · exact saveSound_of_none rfl
    · refine ⟨?_, ?_, ?_, ?_⟩
      · rintro _ ⟨⟩
        exact loaded s sound d hd
      all_goals exact fun held => nomatch held
  · -- Another session that holds a lock has locked another document.
    have tsound := h.saves t ht
    have other : t.holdsLock = true → ∀ e ∈ t.phase.document, e.id ≠ d.id := by
      intro tholds e he same
      refine hne (h.exclusive t ht s hs tholds holds ?_)
      rw [← (tsound.loaded e he).1, same, (sound.loaded d hd).1]
    refine ⟨loaded t tsound, fun tholds e he row hrow hid => ?_, fun tholds e he => ?_,
      tsound.stored⟩
    · rcases (listed row).mp hrow with rfl | ⟨hrow, -⟩
      · exact absurd hid.symm (other tholds e he)
      · exact tsound.current tholds e he row hrow hid
    · have found := (Table.find?_eq_some.mp (tsound.fresh tholds e he)).1
      exact Table.find?_of_mem ((listed e).mpr (.inr ⟨found, other tholds e (pending_document he)⟩))

theorem SavesSound.commitFails (h : SavesSound σ) (hs : s ∈ σ.saves.rows) {d : StoredDocument}
    (hphase : s.phase = .written d) : SavesSound (σ.become s (.unsure d) false) := by
  refine h.become hs h.files ((h.saves s hs).unlocked rfl ?_ rfl) (by simp) fun t ht _ => h.saves t ht
  rw [hphase]
  exact fun _ hd => hd

/-- Under the lock, a version that is not there has not been overtaken. -/
theorem SavesSound.verify (h : SavesSound σ) (hs : s ∈ σ.saves.rows) {d : StoredDocument}
    (hphase : s.phase = .unsure d) (free : σ.lockIsFree s.documentId = true)
    (missing : (σ.world.db.versions.find? (d.id, nextVersion d)).isSome = false) :
    SavesSound (σ.become s (.absent d) true) := by
  have hd : d ∈ s.phase.document := by rw [hphase]; rfl
  have loaded := (h.saves s hs).loaded d hd
  refine h.become hs h.files ?_ (fun _ => .inr free) fun t ht _ => h.saves t ht
  constructor
  · rintro _ ⟨⟩
    exact loaded
  · rintro - _ ⟨⟩ row hrow hid
    obtain ⟨-, row', hrow', hid', -, hle⟩ := loaded
    have same := σ.world.db.documents.eq_of_key_eq hrow' hrow (hid'.trans hid.symm)
    subst same
    by_contra hne
    have behind : nextVersion d ≤ row'.currentVersion := by
      unfold nextVersion
      omega
    have there := (h.files.complete row' hrow').2 (nextVersion d) (Nat.le_add_left _ _) behind
    rw [hid, missing] at there
    cases there
  · rintro - _ ⟨⟩
  · rintro - _ ⟨⟩

theorem SavesSound.begin (h : SavesSound σ) {s : Save} (hphase : s.phase = .started)
    (disconnected : s.connected = false) {saves : Table Save.id}
    (hins : σ.saves.insert? s = some saves) : SavesSound { σ with saves := saves } := by
  have mem (t : Save) := Table.mem_insert? (x := t) hins
  have free : s.holdsLock = false := by rw [Save.holdsLock, disconnected]; rfl
  refine ⟨h.files, fun t ht u hu tholds uholds => ?_, fun t ht => ?_⟩
  · rcases (mem t).mp ht with rfl | ht
    · exact nomatch free.symm.trans tholds
    · rcases (mem u).mp hu with rfl | hu
      · exact nomatch free.symm.trans uholds
      · exact h.exclusive t ht u hu tholds uholds
  · rcases (mem t).mp ht with rfl | ht
    · exact saveSound_of_none (by rw [hphase]; rfl)
    · exact h.saves t ht

/-- One admitted step of a save that has begun. -/
theorem SavesSound.acts {step : SaveStep} (h : SavesSound σ) (hs : s ∈ σ.saves.rows)
    (hid : s.id = step.save) (kept : locksKept σ step) (acts : Saves.Acts increment σ s step τ) :
    SavesSound τ := by
  have ahead (touches : step.touchesObject = true) {d : StoredDocument}
      (locks : s.phase.locks = true) (read : d ∈ s.phase.document) : σ.overtaken s d = false :=
    h.kept hs hid kept touches locks read
  cases acts with
  | loseConnection => exact h.loseConnection hs
  | lock found free => exact h.lock hs found free
  | refuse | verified | verifyFails | close => exact h.finish hs
  | upload phase =>
    exact h.upload hs phase (ahead rfl (by rw [phase]; rfl) (by rw [phase]; rfl))
  | @uploadFails _ landed d phase =>
    refine h.endWrite hs (by rw [phase]; rfl) (d := d) (by rw [phase]; rfl) (fun touched => ?_)
      fun k hk => @putObject_other _ _ _ s.data hk
    subst touched
    exact ahead rfl (by rw [phase]; rfl) (by rw [phase]; rfl)
  | write phase => exact h.write hs phase (.inl rfl)
  | writeFails phase => exact h.write hs phase (.inr rfl)
  | commitFails phase => exact h.commitFails hs phase
  | commit phase connected rows =>
    refine h.commit hs phase connected rows ?_
    split
    · exact .inl rfl
    · exact .inr rfl
  | missing phase free absent => exact h.verify hs phase free absent
  | @cleanUp _ deleted d phase =>
    have locks : s.phase.locks = true := by rcases phase with phase | phase <;> rw [phase] <;> rfl
    have read : d ∈ s.phase.document := by rcases phase with phase | phase <;> rw [phase] <;> rfl
    refine h.endWrite hs locks read (fun touched => ?_) fun k hk =>
      @deleteObjects_other σ.world.objects [nextKey d] k (by simpa using hk)
    subst touched
    exact ahead rfl locks read

/-- One admitted step of any save. -/
theorem SavesSound.step {step : SaveStep} (h : SavesSound σ) (kept : locksKept σ step)
    (hstep : σ.step increment step = some τ) : SavesSound τ := by
  cases step with
  | begin id documentId userId editGrant data pageCount =>
    obtain ⟨saves, hins, rfl⟩ := Option.map_eq_some_iff.mp hstep
    exact h.begin rfl rfl hins
  | loseConnection | lock | refuse | upload | uploadFails | write | writeFails | commit | verify
  | verifyFails | cleanUp | close =>
    obtain ⟨s, found, act⟩ := Option.bind_eq_some_iff.mp hstep
    obtain ⟨hs, hid⟩ := Table.find?_eq_some.mp found
    exact h.acts hs hid kept (Saves.act_cases act)

end

theorem savesSound_start {w : World} (h : FilesStored w) : SavesSound (Saves.start w) :=
  ⟨h, fun _ hs => (List.not_mem_nil hs).elim, fun _ hs => (List.not_mem_nil hs).elim⟩

/-! ## Runs -/

/-- However the steps of concurrent saves interleave, and whatever fails in them, every
committed version has its object. -/
theorem saves_keep_versions (services : Services) {w : World}
    (hw : Runs.Reaches (handle services clampedIncrement) keepsPrefixes World.empty w) {σ : Saves}
    (h : Runs.Reaches (Saves.step clampedIncrement) locksKept (Saves.start w) σ) :
    VersionsStored σ.world := by
  have start := savesSound_start (reachable_filesStored hw)
  have sound : SavesSound σ := h.invariant (fun _ _ _ sound kept step => sound.step kept step) start
  exact sound.files.versionsStored

/-- The rows of one save are written to the row that is there. -/
def VersionAdded (increment : Increment) (db db' : Db) : Prop :=
  ∃ d v pageCount, db.documents.find? d.id = some d ∧ v.versionNumber = nextVersion d ∧
    db.addVersion increment d v pageCount = some db'

/-- Only a commit in its session changes the database. -/
theorem act_db {increment : Increment} {σ τ : Saves} {s : Save} {step : SaveStep}
    (h : σ.act increment s step = some τ) :
    τ.world.db = σ.world.db ∨ ∃ d, s.phase = .written d ∧ s.connected = true ∧
      σ.rows increment s d = some τ.world.db := by
  cases Saves.act_cases h with
  | commit phase connected rows => exact .inr ⟨_, phase, connected, rows⟩
  | @uploadFails _ landed => cases landed <;> exact .inl rfl
  | @cleanUp _ deleted => cases deleted <;> exact .inl rfl
  | loseConnection | lock | refuse | upload | write | writeFails | commitFails | verified | missing
  | verifyFails | close => exact .inl rfl

/-- Concurrent saves leave the rows that the committed ones leave one after the other, each
on the version before it: no update is lost. -/
theorem saves_serialize {increment : Increment} {w : World} (hw : FilesStored w) {σ : Saves}
    (h : Runs.Reaches (Saves.step increment) locksKept (Saves.start w) σ) :
    Relation.ReflTransGen (VersionAdded increment) w.db σ.world.db := by
  refine (h.invariant (P := fun σ => SavesSound σ ∧
    Relation.ReflTransGen (VersionAdded increment) w.db σ.world.db) ?_
    ⟨savesSound_start hw, .refl⟩).2
  rintro σ step τ ⟨sound, added⟩ kept hstep
  refine ⟨sound.step kept hstep, ?_⟩
  cases hb : step with
  | begin =>
    subst hb
    obtain ⟨saves, -, rfl⟩ := Option.map_eq_some_iff.mp hstep
    exact added
  | _ =>
    subst hb
    obtain ⟨s, hs, hact⟩ := Option.bind_eq_some_iff.mp hstep
    rcases act_db hact with same | ⟨d, hphase, connected, hrows⟩
    · rwa [same]
    · have holds : s.holdsLock = true := by
        rw [Save.holdsLock, connected, hphase]
        rfl
      have fresh := (sound.saves s (Table.find?_eq_some.mp hs).1).fresh holds d (by rw [hphase]; rfl)
      exact added.tail ⟨d, s.versionRow d, s.pageCount, fresh, rfl, hrows⟩

/-- Two saves of Ana's note: the first one's rows fail and it cleans up, the second commits
but learns of a failure, and keeps its object. -/
theorem saves_keep_versions_after_failures : ∃ σ : Saves, VersionsStored σ.world ∧
    ∃ d ∈ σ.world.db.documents.rows, d.id = uuid "note" ∧ d.currentVersion = 2 := by
  obtain ⟨w, reach, saved⟩ := Runs.exists_reaches_of_runAll
    (handle plainServices clampedIncrement) keepsPrefixes World.empty
    [.saveDocument "ana" "note" ⟨ascii "%PDF-1", some "note.pdf", none⟩ none (freshLimits "ana")
       (uuid "note")]
    (fun w => (Runs.runAll (Saves.step clampedIncrement) locksKept (Saves.start w)
      [.begin 1 (uuid "note") "ana" false (ascii "%PDF-A") 1,
       .begin 2 (uuid "note") "ana" false (ascii "%PDF-B") 1,
       .lock 1, .upload 1, .writeFails 1, .cleanUp 1 true, .close 1,
       .lock 2, .upload 2, .write 2, .commit 2 .committedButReportsFailure, .verify 2]).any
      (fun σ => decide (∃ d ∈ σ.world.db.documents.rows,
        d.id = uuid "note" ∧ d.currentVersion = 2)) = true) (by decide)
  obtain ⟨σ, run, second⟩ := (Option.any_eq_true _ _).mp saved
  exact ⟨σ, saves_keep_versions plainServices reach (Runs.reaches_of_runAll run),
    of_decide_eq_true second⟩

/-- The first save loses its connection after the upload. The second one takes the lock,
uploads under the same key and commits; then the first one learns of its failure and deletes
the object. -/
theorem clean_up_deletes_committed_version : ∃ w σ,
    Runs.Reaches (handle plainServices clampedIncrement) keepsPrefixes World.empty w ∧
      Runs.Reaches (Saves.step clampedIncrement) Runs.always (Saves.start w) σ ∧
      ∃ v ∈ σ.world.db.versions.rows, v.versionNumber = 2 ∧ σ.world.objects v.filePath = none := by
  obtain ⟨w, reach, saved⟩ := Runs.exists_reaches_of_runAll
    (handle plainServices clampedIncrement) keepsPrefixes World.empty
    [.saveDocument "ana" "note" ⟨ascii "%PDF-1", some "note.pdf", none⟩ none (freshLimits "ana")
       (uuid "note")]
    (fun w => (Runs.runAll (Saves.step clampedIncrement) Runs.always (Saves.start w)
      [.begin 1 (uuid "note") "ana" false (ascii "%PDF-A") 1,
       .begin 2 (uuid "note") "ana" false (ascii "%PDF-B") 1,
       .lock 1, .upload 1, .loseConnection 1,
       .lock 2, .upload 2, .write 2, .commit 2 .committed,
       .writeFails 1, .cleanUp 1 true]).any
      (fun σ => decide (∃ v ∈ σ.world.db.versions.rows,
        v.versionNumber = 2 ∧ σ.world.objects v.filePath = none)) = true) (by decide)
  obtain ⟨σ, run, lost⟩ := (Option.any_eq_true _ _).mp saved
  exact ⟨w, σ, reach, Runs.reaches_of_runAll run, of_decide_eq_true lost⟩

end GigaPdf
