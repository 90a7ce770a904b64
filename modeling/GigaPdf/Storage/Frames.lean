import GigaPdf.Storage.Counters

/-!
# What the row operations touch

One lemma for each operation on rows: which documents and versions there are afterwards.
They hold with and without the clamp.
-/

namespace GigaPdf

variable {increment : Increment}

theorem generateUuid_spec {w issued : World} {id : Uuid} (h : w.generateUuid id = some issued) :
    id ∉ w.issued ∧ issued = { w with issued := id :: w.issued } := by
  simp only [World.generateUuid, Option.ite_none_left_eq_some, Option.some.injEq] at h
  exact ⟨h.1, h.2.symm⟩

/-- The row that a filtered lookup finds is the row of its id. -/
theorem find?_filter {db : Db} {id : Uuid} {d : StoredDocument} {p : StoredDocument → Bool}
    (h : (db.documents.find? id).filter p = some d) :
    d.id = id ∧ db.documents.find? d.id = some d ∧ p d = true := by
  obtain ⟨hfind, hp⟩ := Option.filter_eq_some_iff.mp h
  obtain ⟨hrow, hid⟩ := Table.find?_eq_some.mp hfind
  exact ⟨hid, Table.find?_of_mem hrow, hp⟩

theorem activeDocument_spec {db : Db} {id : Uuid} {userId : String} {d : StoredDocument}
    (h : db.activeDocument id userId = some d) :
    d.id = id ∧ db.documents.find? d.id = some d ∧ d.ownerId = userId ∧ d.isDeleted = false := by
  obtain ⟨hid, hfind, hp⟩ := find?_filter h
  simp only [Bool.and_eq_true, Bool.not_eq_true', decide_eq_true_eq] at hp
  exact ⟨hid, hfind, hp.1, hp.2⟩

/-- A saved document gets a new id, and its row is added when its object is there. -/
theorem saveDocument_spec {services : Services} {w w' : World} {userId name : String}
    {file : UploadFile} {folderId : Option Uuid} {limits : EffectiveLimits} {id : Uuid}
    (hw : saveDocument services increment w userId name file folderId limits id = some w') :
    id ∉ w.issued ∧ ∃ pageCount,
      let format := detectUploadFormat file.data file.filename file.contentType
      let key := originalDocumentKey userId id 1 format.1
      w' = (World.uploadFile { w with issued := id :: w.issued } key
          file.data).rowsForUploadedObject key fun db =>
        db.addDocument increment
          { id := id, name := name, ownerId := userId, folderId := folderId
            pageCount := pageCount, currentVersion := 1, fileSizeBytes := some file.data.length
            mimeType := some format.2, originalFormat := some format.1
            thumbnailPath := none, isDeleted := false, deletedAt := none
            quotaTenantId := none }
          { documentId := id, versionNumber := 1, filePath := key
            fileSizeBytes := file.data.length, content := file.data, createdBy := userId
            encryptionKey := none, isEncrypted := false }
          limits := by
  unfold saveDocument at hw
  simp only [Option.ite_none_left_eq_some] at hw
  obtain ⟨-, hw⟩ := hw
  split at hw
  · cases hw
  · simp only [Option.ite_none_left_eq_some, Option.map_eq_some_iff] at hw
    obtain ⟨-, issued, hissued, rfl⟩ := hw
    obtain ⟨fresh, rfl⟩ := generateUuid_spec hissued
    exact ⟨fresh, _, rfl⟩

/-- A copy of an active document of the user gets a new id, and its row is added when its object is
there. -/
theorem duplicate_spec {services : Services} {w w' : World} {userId : String} {documentId : Uuid}
    {limits : EffectiveLimits} {id : Uuid}
    (hw : duplicateStoredDocument services increment w userId documentId limits id = some w') :
    id ∉ w.issued ∧ ∃ source version data dek,
      w.db.activeDocument documentId userId = some source ∧
      w.db.versions.find? (documentId, source.currentVersion) = some version ∧
      copyVersionObject services w.objects version userId id = some (data, dek) ∧
      let siblings := w.db.documents.rows.filter fun d =>
        d.ownerId = userId && !d.isDeleted && d.folderId = source.folderId
      let key := originalDocumentKey userId id 1 source.format
      w' = (World.uploadFile { w with issued := id :: w.issued } key
          data).rowsForUploadedObject key fun db =>
        db.addDocument increment
          { source with
            id := id, name := nextCopyName source.name (siblings.map (·.name)), ownerId := userId
            currentVersion := 1, fileSizeBytes := some source.size
            mimeType := some (orDefault source.mimeType "application/pdf")
            originalFormat := some source.format, thumbnailPath := none, isDeleted := false
            deletedAt := none, quotaTenantId := none }
          { version with
            documentId := id, versionNumber := 1, filePath := key, createdBy := userId
            encryptionKey := dek, isEncrypted := dek.isSome }
          limits := by
  simp only [duplicateStoredDocument, Option.bind_eq_bind, Option.bind_eq_some_iff,
    Option.ite_none_left_eq_some, Option.some.injEq] at hw
  obtain ⟨source, hsource, version, hversion, -, ⟨data, dek⟩, hcopy, issued, hissued, rfl⟩ := hw
  obtain ⟨fresh, rfl⟩ := generateUuid_spec hissued
  exact ⟨fresh, source, version, data, dek, hsource, hversion, hcopy, rfl⟩

theorem createVersion_spec {services : Services} {w w' : World} {userId : String}
    {documentId : Uuid} {data : Bytes} {editGrant : Bool}
    (hw : createVersion services increment w userId documentId data editGrant = some w') :
    ∃ d pageCount, w.db.documents.find? d.id = some d ∧
      w' = w.saveVersion increment d data pageCount userId := by
  simp only [createVersion, Option.bind_eq_bind, Option.bind_eq_some_iff,
    Option.ite_none_left_eq_some, Option.ite_none_right_eq_some, Option.some.injEq] at hw
  obtain ⟨-, pageCount, -, d, hd, -, rfl⟩ := hw
  exact ⟨d, pageCount, (find?_filter hd).2.1, rfl⟩

/-- The original is the current version, or it is saved as the next one. -/
theorem restoreOriginal_spec {services : Services} {w w' : World} {userId : String}
    {documentId : Uuid}
    (hw : restoreOriginal services increment w userId documentId = some w') :
    w' = w ∨ ∃ d original pageCount, w.db.documents.find? d.id = some d ∧
      w' = w.saveVersion increment d original pageCount userId := by
  simp only [restoreOriginal, Option.bind_eq_bind, Option.bind_eq_some_iff] at hw
  obtain ⟨d, hd, hw⟩ := hw
  split at hw
  · cases hw
    exact .inl rfl
  · simp only [Option.bind_eq_some_iff, Option.ite_none_left_eq_some, Option.some.injEq] at hw
    obtain ⟨original, -, -, pageCount, -, rfl⟩ := hw
    exact .inr ⟨d, original, pageCount, (activeDocument_spec hd).2.1, rfl⟩

theorem CountersMoved.flush {db db' : Db} (moved : CountersMoved db db') (d : StoredDocument) :
    CountersMoved (db.flush d) (db'.flush d) := by
  refine ⟨?_, moved.versions, moved.folders, moved.members, moved.plans, moved.tenants⟩
  simp only [Db.flush, moved.documents]

theorem adjust_spec {db db' : Db} {d d' : StoredDocument} {b n : Int}
    {limits : Option EffectiveLimits}
    (h : db.adjustDocumentStorage increment d b n limits = some (db', d')) :
    CountersMoved db db' ∧ ∃ t, d' = { d with quotaTenantId := t } := by
  obtain ⟨moved, hmove, heq⟩ := Option.map_eq_some_iff.mp h
  cases heq
  exact ⟨moveCounter_frame hmove, _, rfl⟩

theorem freeDocument_spec {db db' : Db} {d d' : StoredDocument}
    (h : db.freeDocument increment d = some (db', d')) : CountersMoved db db' ∧ d' = d := by
  unfold Db.freeDocument at h
  split at h
  · cases h
    exact ⟨.refl db, rfl⟩
  · rw [adjust_move db d (by decide)] at h
    obtain ⟨moved, hmove, heq⟩ := Option.map_eq_some_iff.mp h
    cases heq
    exact ⟨moveCounter_frame hmove, rfl⟩

theorem resizeStoredDocument_spec {db db' : Db} {d d' : StoredDocument} {newSize : Nat}
    (h : db.resizeStoredDocument increment d newSize = some (db', d')) :
    CountersMoved db db' ∧ d' = { d with fileSizeBytes := some newSize } := by
  unfold Db.resizeStoredDocument at h
  simp only at h
  split at h
  · cases h
    exact ⟨.refl db, rfl⟩
  · rw [adjust_move db _ (by decide)] at h
    obtain ⟨moved, hmove, heq⟩ := Option.map_eq_some_iff.mp h
    cases heq
    exact ⟨moveCounter_frame hmove, rfl⟩

theorem trashDocument_spec {db db' : Db} {d : StoredDocument} {now : Time}
    (h : db.trashDocument increment d now = some db') :
    CountersMoved (db.flush { d with isDeleted := true, deletedAt := some now }) db' := by
  obtain ⟨⟨db₁, d₁⟩, hfree, rfl⟩ := Option.map_eq_some_iff.mp h
  obtain ⟨moved, rfl⟩ := freeDocument_spec hfree
  exact moved.flush _

theorem restoreDocument_spec {db db' : Db} {d : StoredDocument} {limits : Option EffectiveLimits}
    (h : db.restoreDocument increment d limits = some db') :
    ∃ t, CountersMoved
      (db.flush { d with isDeleted := false, deletedAt := none, quotaTenantId := t }) db' := by
  obtain ⟨⟨db₁, d₁⟩, hadjust, rfl⟩ := Option.map_eq_some_iff.mp h
  obtain ⟨moved, t, rfl⟩ := adjust_spec hadjust
  exact ⟨t, moved.flush _⟩

theorem releaseDocuments_frame {db db' : Db} {documents : List StoredDocument}
    (h : db.releaseDocuments increment documents = some db') : CountersMoved db db' := by
  unfold Db.releaseDocuments at h
  generalize tallyDocuments (fun d => (d.ownerId, d.quotaTenantId)) documents = freed at h
  induction freed generalizing db with
  | nil => cases h; exact .refl _
  | cons e rest ih =>
    rw [List.foldlM_cons] at h
    obtain ⟨next, hmove, hrest⟩ := Option.bind_eq_some_iff.mp h
    exact (moveCounter_frame hmove).trans (ih hrest)

theorem chargeOwners_frame (charged : List (String × Usage)) (db : Db) :
    CountersMoved db
      (charged.foldl (fun db e => db.incrementUserStorage increment e.1 e.2.1 e.2.2) db) := by
  induction charged generalizing db with
  | nil => exact .refl db
  | cons e rest ih => exact (incrementUserStorage_frame db e.1 e.2.1 e.2.2).trans (ih _)

theorem insertVersion_spec {db db' : Db} {v : DocumentVersion}
    (h : db.insertVersion v = some db') :
    ∃ versions, db.versions.insert? v = some versions ∧ db' = { db with versions := versions } ∧
      (db.documents.find? v.documentId).isSome := by
  simp only [Db.insertVersion, Option.ite_none_right_eq_some, Option.map_eq_some_iff] at h
  obtain ⟨hdoc, versions, hins, rfl⟩ := h
  exact ⟨versions, hins, rfl, hdoc⟩

theorem insertDocument_spec {db db' : Db} {d : StoredDocument}
    (h : db.insertDocument d = some db') :
    ∃ documents, db.documents.insert? d = some documents ∧
      db' = { db with documents := documents } ∧
      d.folderId.all fun f => (db.folders.find? f).isSome := by
  simp only [Db.insertDocument, Option.ite_none_right_eq_some, Option.map_eq_some_iff] at h
  obtain ⟨hfk, documents, hins, rfl⟩ := h
  exact ⟨documents, hins, rfl, hfk.1⟩

/-- A new document and its first version, next to what was there. -/
theorem addDocument_spec {db db' : Db} {d : StoredDocument} {v : DocumentVersion}
    {limits : EffectiveLimits} (h : db.addDocument increment d v limits = some db') :
    (∃ t, db'.documents.rows = { d with quotaTenantId := t } :: db.documents.rows) ∧
      db'.versions.rows = v :: db.versions.rows ∧ db'.folders = db.folders ∧
      d.folderId.all fun f => (db.folders.find? f).isSome := by
  simp only [Db.addDocument, Option.bind_eq_bind, Option.bind_eq_some_iff] at h
  obtain ⟨⟨db₁, d₁⟩, hadjust, db₂, hdoc, hversion⟩ := h
  obtain ⟨moved, t, rfl⟩ := adjust_spec hadjust
  obtain ⟨documents, hins, rfl, hfolder⟩ := insertDocument_spec hdoc
  obtain ⟨versions, hinsv, rfl, -⟩ := insertVersion_spec hversion
  rw [moved.folders] at hfolder
  refine ⟨⟨t, ?_⟩, ?_, moved.folders, hfolder⟩
  · rw [(Table.insert?_eq_some.mp hins).2, moved.documents]
  · rw [(Table.insert?_eq_some.mp hinsv).2, moved.versions]

/-- The next version, and the document's row with its number and size. -/
theorem addVersion_spec {db db' : Db} {d : StoredDocument} {v : DocumentVersion} {pageCount : Nat}
    (h : db.addVersion increment d v pageCount = some db') :
    db'.documents = (db.flush { d with
        currentVersion := v.versionNumber, pageCount := pageCount
        fileSizeBytes := some v.fileSizeBytes }).documents ∧
      db'.versions.rows = v :: db.versions.rows ∧ db'.folders = db.folders := by
  simp only [Db.addVersion, Option.bind_eq_bind, Option.bind_eq_some_iff, Option.some.injEq] at h
  obtain ⟨db₁, hversion, ⟨db₂, d₂⟩, hresize, rfl⟩ := h
  obtain ⟨versions, hins, rfl, -⟩ := insertVersion_spec hversion
  obtain ⟨moved, rfl⟩ := resizeStoredDocument_spec hresize
  refine ⟨?_, ?_, moved.folders⟩
  · simp only [Db.flush, moved.documents]
  · change db₂.versions.rows = _
    rw [moved.versions, (Table.insert?_eq_some.mp hins).2]

theorem mem_flush_iff {db : Db} {d old : StoredDocument}
    (h : db.documents.find? d.id = some old) {x : StoredDocument} :
    x ∈ (db.flush d).documents.rows ↔ x = d ∨ (x ∈ db.documents.rows ∧ x.id ≠ d.id) := by
  obtain ⟨hold, hid⟩ := Table.find?_eq_some.mp h
  simp only [Db.flush, Table.mem_update]
  constructor
  · rintro ⟨row, hrow, rfl⟩
    by_cases hk : row.id = d.id
    · left; simp [hk]
    · right; simp [hk, hrow]
  · rintro (rfl | ⟨hx, hk⟩)
    · exact ⟨old, hold, by simp [hid]⟩
    · exact ⟨x, hx, by simp [hk]⟩

/-- A field that a write keeps is kept in every row. -/
theorem flush_map {β : Type} {db : Db} {d old : StoredDocument}
    (h : db.documents.find? d.id = some old) (view : StoredDocument → β)
    (same : view d = view old) :
    (db.flush d).documents.rows.map view = db.documents.rows.map view := by
  have hid := (Table.find?_eq_some.mp h).2
  change (List.map _ db.documents.rows).map view = _
  rw [List.map_map]
  refine List.map_congr_left fun row hrow => ?_
  by_cases hk : row.id = d.id
  · have hrow' := Table.find?_of_mem hrow
    rw [hk, h] at hrow'
    cases hrow'
    simp only [Function.comp, hk, decide_true, if_true]
    rw [← same]
  · simp [hk]

theorem update_map {β : Type} (rows : List StoredDocument) (p : StoredDocument → Bool)
    (change : StoredDocument → StoredDocument) (view : StoredDocument → β)
    (same : ∀ d, view (change d) = view d) :
    (rows.map fun r => if p r then change r else r).map view = rows.map view := by
  rw [List.map_map]
  refine List.map_congr_left fun row _ => ?_
  by_cases hp : p row = true
  · simp [hp, same]
  · simp [hp]

end GigaPdf
