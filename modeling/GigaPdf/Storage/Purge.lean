import GigaPdf.Storage.Files
import GigaPdf.Storage.QuotaRuns

/-!
# The trash purge between other requests

The purge selects a batch without locking it, reads the object keys of the batch, deletes
the rows by id and commits, then deletes the objects one by one. Any request may run in
between. The batch must still be in the trash when its rows go.
-/

namespace GigaPdf

/-- `cleaning []` is the purge between two batches. -/
inductive PurgePhase
  | cleaning (keys : List Key)
  | selected (documents : List StoredDocument)
  | collected (ids : List Uuid) (keys : List Key)

structure Purge where
  world : World
  phase : PurgePhase

def Purge.start (w : World) : Purge := ⟨w, .cleaning []⟩

inductive PurgeStep
  | request (r : Request)
  | selectBatch (cutoff : Time) (ids : List Uuid)
  | collectKeys
  | deleteRows
  | deleteObject (deleted : Bool)
  | giveUp

section
variable (services : Services)

def Purge.step (σ : Purge) : PurgeStep → Option Purge
  | .request r =>
    (handle services clampedIncrement σ.world r).map fun w => { σ with world := w }
  | .selectBatch cutoff ids =>
    match σ.phase with
    | .cleaning [] =>
      (σ.world.db.purgeBatch cutoff ids).map fun documents =>
        { σ with phase := .selected documents }
    | _ => none
  | .collectKeys =>
    match σ.phase with
    | .selected documents =>
      some
        { σ with
          phase := .collected (documents.map (·.id)) (σ.world.db.purgeKeys documents) }
    | _ => none
  | .deleteRows =>
    match σ.phase with
    | .collected ids keys =>
      some ⟨σ.world.withDb (σ.world.db.deleteDocuments ids), .cleaning keys⟩
    | _ => none
  | .deleteObject deleted =>
    match σ.phase with
    | .cleaning (key :: keys) =>
      some
        ⟨if deleted then { σ.world with objects := deleteObjects σ.world.objects [key] }
          else σ.world, .cleaning keys⟩
    | _ => none
  | .giveUp => some { σ with phase := .cleaning [] }

end

/-- When the purge deletes its batch, what is left of the batch is in the trash; no account
is erased meanwhile. -/
def stillTrashed (σ : Purge) : PurgeStep → Prop
  | .request r => keepsPrefixes σ.world r
  | .deleteRows =>
    match σ.phase with
    | .collected ids _ => ∀ d ∈ σ.world.db.documents.rows, d.id ∈ ids → d.isDeleted = true
    | _ => True
  | _ => True

instance (σ : Purge) (step : PurgeStep) : Decidable (stillTrashed σ step) := by
  unfold stillTrashed
  cases step with
  | deleteRows => cases σ.phase <;> infer_instance
  | _ => infer_instance

/-! ## Ids are not used twice -/

/-- Documents come from earlier ones or have a new id. -/
structure IdsKept (w w' : World) : Prop where
  issued : ∀ id ∈ w.issued, id ∈ w'.issued
  documents : ∀ d ∈ w'.db.documents.rows, d.id ∈ w.issued →
    ∃ row ∈ w.db.documents.rows, row.id = d.id

theorem SameFiles.idsKept {w w' : World} (h : SameFiles w w') : IdsKept w w' := by
  refine ⟨h.issued, fun d hd _ => ?_⟩
  obtain ⟨row, hrow, hview⟩ := h.document' hd
  simp only [fileView, Prod.mk.injEq] at hview
  exact ⟨row, hrow, hview.1⟩

theorem IdsKept.fewer {w w' : World} (issued : w'.issued = w.issued)
    (fewer : ∀ d ∈ w'.db.documents.rows, ∃ row ∈ w.db.documents.rows, row.id = d.id) :
    IdsKept w w' :=
  ⟨fun _ hid => issued ▸ hid, fun d hd _ => fewer d hd⟩

variable {increment : Increment}

theorem newDocument_idsKept {w : World} {d : StoredDocument} {v : DocumentVersion}
    {limits : EffectiveLimits} (fresh : d.id ∉ w.issued) (key : Key) (data : Bytes) :
    IdsKept w ((({ w with issued := d.id :: w.issued } : World).uploadFile key
      data).rowsForUploadedObject key fun db => db.addDocument increment d v limits) := by
  have issued : ∀ id ∈ w.issued, id ∈ d.id :: w.issued := fun _ hid => List.mem_cons_of_mem _ hid
  unfold World.rowsForUploadedObject
  split
  · rename_i db hadd
    obtain ⟨⟨t, hdocs⟩, -⟩ := addDocument_spec hadd
    refine ⟨issued, fun x hx hid => ?_⟩
    change x ∈ db.documents.rows at hx
    rw [hdocs, List.mem_cons] at hx
    rcases hx with rfl | hx
    · exact absurd hid fresh
    · exact ⟨x, hx, rfl⟩
  · exact ⟨issued, fun x hx _ => ⟨x, hx, rfl⟩⟩

theorem flush_ids {db : Db} (d : StoredDocument) {x : StoredDocument}
    (hx : x ∈ (db.flush d).documents.rows) : ∃ row ∈ db.documents.rows, row.id = x.id := by
  obtain ⟨row, hrow, rfl⟩ := List.mem_map.mp hx
  refine ⟨row, hrow, ?_⟩
  split <;> rfl

theorem saveVersion_idsKept {w : World} (d : StoredDocument) (data : Bytes) (pageCount : Nat)
    (createdBy : String) : IdsKept w (w.saveVersion increment d data pageCount createdBy) := by
  unfold World.saveVersion World.rowsForUploadedObject World.uploadFile
  simp only
  split
  · rename_i db hadd
    obtain ⟨hdocs, -⟩ := addVersion_spec hadd
    refine .fewer rfl fun x hx => ?_
    change x ∈ db.documents.rows at hx
    rw [hdocs] at hx
    exact flush_ids _ hx
  · exact .fewer rfl fun x hx => ⟨x, hx, rfl⟩

theorem deleteDocuments_ids {db db' : Db} (h : db'.documents = db.documents) (ids : List Uuid)
    {x : StoredDocument} (hx : x ∈ (db'.deleteDocuments ids).documents.rows) :
    ∃ row ∈ db.documents.rows, row.id = x.id :=
  ⟨x, h ▸ (Table.mem_deleteWhere.mp hx).1, rfl⟩

theorem hardDelete_idsKept {w w' : World} {d : StoredDocument}
    (h : w.hardDelete increment d = some w') : IdsKept w w' := by
  obtain ⟨⟨db, d'⟩, hfree, rfl⟩ := Option.map_eq_some_iff.mp h
  obtain ⟨moved, -⟩ := freeDocument_spec hfree
  exact .fewer rfl fun x hx => deleteDocuments_ids moved.documents _ hx

theorem handle_idsKept {services : Services} {w w' : World} {r : Request}
    (hr : keepsPrefixes w r) (hw : handle services increment w r = some w') : IdsKept w w' := by
  cases r with
  | saveDocument userId name file folderId limits id =>
    obtain ⟨fresh, pageCount, rfl⟩ := saveDocument_spec hw
    exact newDocument_idsKept fresh _ _
  | duplicate userId documentId limits id =>
    obtain ⟨fresh, source, version, data, dek, -, -, -, rfl⟩ := duplicate_spec hw
    exact newDocument_idsKept fresh _ _
  | createVersion userId documentId data editGrant =>
    obtain ⟨d, pageCount, -, rfl⟩ := createVersion_spec hw
    exact saveVersion_idsKept d data pageCount userId
  | restoreOriginal userId documentId =>
    obtain rfl | ⟨d, original, pageCount, -, rfl⟩ := restoreOriginal_spec hw
    · exact (SameFiles.refl w').idsKept
    · exact saveVersion_idsKept d original pageCount userId
  | delete userId documentId permanent now =>
    simp only [handle, deleteStoredDocument, Option.bind_eq_bind, Option.bind_eq_some_iff] at hw
    obtain ⟨d, hd, hw⟩ := hw
    split at hw
    · exact hardDelete_idsKept hw
    · obtain ⟨db, htrash, rfl⟩ := Option.map_eq_some_iff.mp hw
      exact (trashDocument_sameFiles (find?_filter hd).2.1 htrash).idsKept
  | adminDelete documentId permanent now =>
    simp only [handle, adminDeleteDocument, Option.bind_eq_bind, Option.bind_eq_some_iff] at hw
    obtain ⟨d, hd, hw⟩ := hw
    split at hw
    · exact hardDelete_idsKept hw
    · obtain ⟨db, htrash, rfl⟩ := Option.map_eq_some_iff.mp hw
      have hrow := (Table.find?_eq_some.mp hd).1
      exact (trashDocument_sameFiles (Table.find?_of_mem hrow) htrash).idsKept
  | restore userId documentId limits =>
    simp only [handle, restoreStoredDocument, Option.bind_eq_bind, Option.bind_eq_some_iff,
      Option.map_eq_some_iff] at hw
    obtain ⟨d, hd, db, hrestore, rfl⟩ := hw
    exact (restoreDocument_sameFiles (find?_filter hd).2.1 hrestore).idsKept
  | adminRestore documentId =>
    simp only [handle, adminRestoreDocument, Option.bind_eq_bind, Option.bind_eq_some_iff,
      Option.map_eq_some_iff] at hw
    obtain ⟨d, hd, db, hrestore, rfl⟩ := hw
    exact (restoreDocument_sameFiles (find?_filter hd).2.1 hrestore).idsKept
  | thumbnail userId documentId image =>
    simp only [handle, uploadDocumentThumbnail, Option.bind_eq_bind, Option.bind_eq_some_iff,
      Option.ite_none_left_eq_some, Option.some.injEq] at hw
    obtain ⟨-, ⟨extension, mime⟩, -, d, -, rfl⟩ := hw
    exact .fewer rfl fun x hx => flush_ids _ hx
  | purge cutoff ids =>
    obtain ⟨documents, -, rfl⟩ := Option.map_eq_some_iff.mp hw
    exact .fewer rfl fun x hx => deleteDocuments_ids rfl _ hx
  | createFolder => exact (createFolder_sameFiles hw).idsKept
  | moveFolder => exact (moveFolder_sameFiles hw).idsKept
  | moveDocument => exact (moveDocument_sameFiles hw).idsKept
  | deleteFolder => exact (deleteFolder_sameFiles hw).idsKept
  | erase userId => exact hr.elim
  | getOrCreateQuota userId =>
    cases hw
    refine .fewer rfl fun x hx => ⟨x, ?_, rfl⟩
    simp only [World.withDb, Db.getOrCreateQuota] at hx
    split at hx <;> exact hx
  | createTenant tenant =>
    obtain ⟨db, hdb, rfl⟩ := Option.map_eq_some_iff.mp hw
    obtain ⟨tenants, -, rfl⟩ := Option.map_eq_some_iff.mp hdb
    exact .fewer rfl fun x hx => ⟨x, hx, rfl⟩
  | setUserPlan | setTenantPlan | setMembers | setPlans =>
    cases hw
    exact .fewer rfl fun x hx => ⟨x, hx, rfl⟩

/-! ## The invariant -/

/-- The objects that the purge still deletes belong to no document any more; before it deletes
the rows, they belong to its batch. -/
def PhaseSound (w : World) : PurgePhase → Prop
  | .cleaning keys => ∀ key ∈ keys, ∃ id ∈ w.issued, BelongsTo id key ∧
      ∀ d ∈ w.db.documents.rows, d.id ≠ id
  | .selected documents => ∀ d ∈ documents, d.id ∈ w.issued ∧
      ∀ key, d.thumbnailPath = some key → BelongsTo d.id key
  | .collected ids keys => (∀ id ∈ ids, id ∈ w.issued) ∧ ∀ key ∈ keys, ∃ id ∈ ids, BelongsTo id key

structure PurgeSound (σ : Purge) : Prop where
  files : FilesStored σ.world
  balanced : Balanced σ.world.db
  phase : PhaseSound σ.world σ.phase

theorem PhaseSound.idsKept {w w' : World} {phase : PurgePhase} (h : PhaseSound w phase)
    (kept : IdsKept w w') : PhaseSound w' phase := by
  cases phase with
  | cleaning keys =>
    intro key hkey
    obtain ⟨id, hid, belongs, gone⟩ := h key hkey
    refine ⟨id, kept.issued id hid, belongs, ?_⟩
    rintro d hd rfl
    obtain ⟨row, hrow, same⟩ := kept.documents d hd hid
    exact gone row hrow same
  | selected documents =>
    intro d hd
    obtain ⟨hid, thumbnail⟩ := h d hd
    exact ⟨kept.issued _ hid, thumbnail⟩
  | collected ids keys => exact ⟨fun id hid => kept.issued id (h.1 id hid), h.2⟩

/-- An object of a document that is gone. -/
theorem FilesStored.deleteForeign {w : World} (h : FilesStored w) {id : Uuid} {key : Key}
    (belongs : BelongsTo id key) (gone : ∀ d ∈ w.db.documents.rows, d.id ≠ id) :
    FilesStored { w with objects := deleteObjects w.objects [key] } := by
  refine h.withObjects (fun k hk => deleteObjects_other ?_) fun _ hid => hid
  rw [List.mem_singleton]
  rcases hk with ⟨v, hv, rfl⟩ | ⟨d, hd, hthumb⟩
  · obtain ⟨d, hd, hid, -⟩ := h.versionOf v hv
    intro same
    exact gone d hd (hid.trans ((h.version_belongs hv).unique belongs same))
  · intro same
    exact gone d hd ((h.thumbnail_belongs hd hthumb).unique belongs same)

theorem PurgeSound.step {services : Services} {σ τ : Purge} {step : PurgeStep} (h : PurgeSound σ)
    (trashed : stillTrashed σ step) (hstep : σ.step services step = some τ) : PurgeSound τ := by
  cases step with
  | request r =>
    obtain ⟨w, hw, rfl⟩ := Option.map_eq_some_iff.mp hstep
    obtain ⟨same, balanced⟩ := handle_settles services h.balanced r
    exact ⟨handle_filesStored h.files trashed hw, balanced w (same ▸ hw),
      h.phase.idsKept (handle_idsKept trashed hw)⟩
  | selectBatch cutoff ids =>
    simp only [Purge.step] at hstep
    split at hstep
    · obtain ⟨documents, hbatch, rfl⟩ := Option.map_eq_some_iff.mp hstep
      refine ⟨h.files, h.balanced, fun d hd => ?_⟩
      have hrow := (mem_purgeBatch hbatch hd).1
      exact ⟨h.files.issued d hrow, fun key hkey => h.files.thumbnail_belongs hrow hkey⟩
    · cases hstep
  | collectKeys =>
    simp only [Purge.step] at hstep
    split at hstep
    · rename_i documents hphase
      cases hstep
      have batch : PhaseSound σ.world (.selected documents) := hphase ▸ h.phase
      refine ⟨h.files, h.balanced, fun id hid => ?_, fun key hkey => ?_⟩
      · obtain ⟨d, hd, rfl⟩ := List.mem_map.mp hid
        exact (batch d hd).1
      · rcases mem_purgeKeys hkey with ⟨v, hv, rfl, d, hd, hid⟩ | ⟨d, hd, hthumb⟩
        · exact ⟨d.id, List.mem_map_of_mem hd, hid ▸ h.files.version_belongs hv⟩
        · exact ⟨d.id, List.mem_map_of_mem hd, (batch d hd).2 key hthumb⟩
    · cases hstep
  | deleteRows =>
    simp only [Purge.step] at hstep
    simp only [stillTrashed] at trashed
    split at hstep
    · rename_i ids keys hphase
      cases hstep
      rw [hphase] at trashed
      obtain ⟨issued, belong⟩ : PhaseSound σ.world (.collected ids keys) := hphase ▸ h.phase
      refine ⟨?_, h.balanced.deleteTrash ids trashed, fun key hkey => ?_⟩
      · exact @FilesStored.deleteDocuments _ h.files _ _ [] rfl rfl (by simp)
      · obtain ⟨id, hid, mine⟩ := belong key hkey
        refine ⟨id, issued id hid, mine, ?_⟩
        rintro d hd rfl
        have := (Table.mem_deleteWhere.mp hd).2
        simp [hid] at this
    · cases hstep
  | deleteObject deleted =>
    simp only [Purge.step] at hstep
    split at hstep
    · rename_i key keys hphase
      cases hstep
      have pending : PhaseSound σ.world (.cleaning (key :: keys)) := hphase ▸ h.phase
      obtain ⟨id, -, belongs, gone⟩ := pending key List.mem_cons_self
      have rest : PhaseSound σ.world (.cleaning keys) :=
        fun k hk => pending k (List.mem_cons_of_mem _ hk)
      cases deleted with
      | false => exact ⟨h.files, h.balanced, rest⟩
      | true => exact ⟨h.files.deleteForeign belongs gone, h.balanced, rest⟩
    · cases hstep
  | giveUp =>
    cases hstep
    exact ⟨h.files, h.balanced, fun _ hkey => (List.not_mem_nil hkey).elim⟩

/-! ## Runs -/

theorem purgeSound_start : PurgeSound (Purge.start World.empty) :=
  ⟨filesStored_empty, balanced_empty, fun _ hkey => (List.not_mem_nil hkey).elim⟩

theorem reachable_purgeSound {services : Services} {σ : Purge}
    (h : Runs.Reaches (Purge.step services) stillTrashed (Purge.start World.empty) σ) :
    PurgeSound σ :=
  h.invariant (fun _ _ _ sound trashed step => sound.step trashed step) purgeSound_start

/-- A step of the purge leaves the rows of active documents. -/
theorem purge_step_keeps {services : Services} {σ τ : Purge} {step : PurgeStep}
    (trashed : stillTrashed σ step) (own : ∀ r, step ≠ .request r)
    (hstep : σ.step services step = some τ) {d : StoredDocument}
    (hd : d ∈ σ.world.db.documents.rows) (active : d.isDeleted = false) :
    d ∈ τ.world.db.documents.rows := by
  cases step with
  | request r => exact absurd rfl (own r)
  | selectBatch cutoff ids =>
    simp only [Purge.step] at hstep
    split at hstep
    · obtain ⟨documents, -, rfl⟩ := Option.map_eq_some_iff.mp hstep
      exact hd
    · cases hstep
  | collectKeys =>
    simp only [Purge.step] at hstep
    split at hstep <;> cases hstep
    exact hd
  | deleteRows =>
    simp only [Purge.step] at hstep
    simp only [stillTrashed] at trashed
    split at hstep
    · rename_i ids keys hphase
      cases hstep
      rw [hphase] at trashed
      refine Table.mem_deleteWhere.mpr ⟨hd, ?_⟩
      rw [decide_eq_false_iff_not]
      intro hid
      rw [trashed d hd hid] at active
      cases active
    · cases hstep
  | deleteObject deleted =>
    simp only [Purge.step] at hstep
    split at hstep
    · cases hstep
      cases deleted <;> exact hd
    · cases hstep
  | giveUp =>
    cases hstep
    exact hd

/-- While the purge deletes only what is still in the trash, documents keep their versions and
objects, counters count the documents there are, and no active document is purged. -/
theorem purge_keeps_active_documents (services : Services) {σ : Purge}
    (h : Runs.Reaches (Purge.step services) stillTrashed (Purge.start World.empty) σ) :
    VersionsStored σ.world ∧
    (∀ d ∈ σ.world.db.documents.rows, ∀ key, d.thumbnailPath = some key →
      (σ.world.objects key).isSome) ∧
    (∀ c, σ.world.db.usage c =
      (((σ.world.db.countedOn c).map fun d => (d.size : Int)).sum,
        ((σ.world.db.countedOn c).length : Int))) ∧
    ∀ step τ, stillTrashed σ step → (∀ r, step ≠ .request r) → σ.step services step = some τ →
      ∀ d ∈ σ.world.db.documents.rows, d.isDeleted = false → d ∈ τ.world.db.documents.rows := by
  have sound := reachable_purgeSound h
  refine ⟨sound.files.versionsStored, fun d hd key hkey => (sound.files.thumbnail d hd key hkey).2,
    fun c => ?_, fun step τ trashed own hstep d hd active => ?_⟩
  · rw [sound.balanced.exact, recorded_eq]
  · exact purge_step_keeps trashed own hstep hd active

/-- A document that was restored and trashed again during the purge goes; the other stays. -/
theorem purge_keeps_active_documents_retrashed : ∃ σ : Purge,
    σ.phase = .cleaning [] ∧ σ.world.db.usage (.personal "ana") = (6, 1) ∧
      VersionsStored σ.world := by
  obtain ⟨σ, reach, hphase, used⟩ := Runs.exists_reaches_of_runAll
    (Purge.step plainServices) stillTrashed (Purge.start World.empty)
    [.request (.saveDocument "ana" "note" ⟨ascii "%PDF-", some "note.pdf", none⟩ none
       (freshLimits "ana") (uuid "note")),
     .request (.saveDocument "ana" "bill" ⟨ascii "%PDF-1", some "bill.pdf", none⟩ none
       (freshLimits "ana") (uuid "bill")),
     .request (.delete "ana" (uuid "note") false 1),
     .selectBatch 5 [uuid "note"],
     .request (.restore "ana" (uuid "note") (freshLimits "ana")),
     .request (.delete "ana" (uuid "note") false 7),
     .collectKeys, .deleteRows, .deleteObject true]
    (fun σ => (match σ.phase with | .cleaning [] => true | _ => false) = true ∧
      σ.world.db.usage (.personal "ana") = (6, 1)) (by decide)
  refine ⟨σ, ?_, used, (purge_keeps_active_documents plainServices reach).1⟩
  split at hphase
  · assumption
  · cases hphase

/-- Ana restores her document after the purge has selected it; the purge deletes it all the
same, and her counter still charges it. -/
theorem purge_deletes_restored_document : ∃ σ τ,
    Runs.Reaches (Purge.step plainServices) Runs.always (Purge.start World.empty) σ ∧
      (∃ d ∈ σ.world.db.documents.rows, d.id = uuid "note" ∧ d.isDeleted = false) ∧
      σ.step plainServices .deleteRows = some τ ∧ τ.world.db.documents.rows = [] ∧
      τ.world.db.usage (.personal "ana") = (5, 1) := by
  obtain ⟨σ, reach, restored, purged⟩ := Runs.exists_reaches_of_runAll
    (Purge.step plainServices) Runs.always (Purge.start World.empty)
    [.request (.saveDocument "ana" "note" ⟨ascii "%PDF-", some "note.pdf", none⟩ none
       (freshLimits "ana") (uuid "note")),
     .request (.delete "ana" (uuid "note") false 1),
     .selectBatch 5 [uuid "note"],
     .request (.restore "ana" (uuid "note") (freshLimits "ana")),
     .collectKeys]
    (fun σ => (∃ d ∈ σ.world.db.documents.rows, d.id = uuid "note" ∧ d.isDeleted = false) ∧
      (σ.step plainServices .deleteRows).any (fun τ => decide (τ.world.db.documents.rows = [] ∧
        τ.world.db.usage (.personal "ana") = (5, 1))) = true) (by decide)
  obtain ⟨τ, hτ, lost⟩ := (Option.any_eq_true _ _).mp purged
  obtain ⟨gone, charged⟩ := of_decide_eq_true lost
  exact ⟨σ, τ, reach, restored, hτ, gone, charged⟩

end GigaPdf
