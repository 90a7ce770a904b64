import GigaPdf.Quota
import GigaPdf.Storage.Formats

/-!
# Document endpoints

Each function is one request of `api/v1/storage.py`, `admin/documents.py` or the trash
purge, with its database transaction taken as a whole. `none` is an error response: the
transaction rolls back.
-/

namespace GigaPdf

/-- The database, the object store, and the UUIDs generated so far. -/
structure World where
  db : Db
  objects : Key → Option Bytes
  issued : List Uuid

def World.empty : World := ⟨.empty, fun _ => none, []⟩

/-- Code outside the repository: the PDF reader (a page count, when it can read the file)
and the envelope encryption of an object, bound to its document and user. -/
structure Services where
  countPdfPages : Bytes → Option Nat
  encrypt : Bytes → Uuid → String → Bytes × String
  decrypt : Bytes → String → Uuid → String → Option Bytes

/-! ## Objects -/

def putObject (objects : Key → Option Bytes) (key : Key) (data : Bytes) : Key → Option Bytes :=
  fun k => if k = key then some data else objects k

def deleteObjects (objects : Key → Option Bytes) (keys : List Key) : Key → Option Bytes :=
  fun k => if k ∈ keys then none else objects k

def World.uploadFile (w : World) (key : Key) (data : Bytes) : World :=
  { w with objects := putObject w.objects key data }

/-- The rows that reference an object uploaded just before, or the object's deletion. -/
def World.rowsForUploadedObject (w : World) (key : Key) (rows : Db → Option Db) : World :=
  match rows w.db with
  | some db => { w with db := db }
  | none => { w with objects := deleteObjects w.objects [key] }

/-- A new UUID: one that was never generated before. -/
def World.generateUuid (w : World) (id : Uuid) : Option World :=
  if id ∈ w.issued then none else some { w with issued := id :: w.issued }

/-! ## Rows -/

def Db.insertDocument (db : Db) (document : StoredDocument) : Option Db :=
  if document.folderId.all (fun f => (db.folders.find? f).isSome) ∧
      document.quotaTenantId.all (fun t => (db.tenants.find? t).isSome) then
    (db.documents.insert? document).map fun documents => { db with documents := documents }
  else none

def Db.insertVersion (db : Db) (version : DocumentVersion) : Option Db :=
  if (db.documents.find? version.documentId).isSome then
    (db.versions.insert? version).map fun versions => { db with versions := versions }
  else none

/-- Write a loaded document back to its row. -/
def Db.flush (db : Db) (document : StoredDocument) : Db :=
  { db with
    documents := db.documents.update document.id (fun row => { document with id := row.id })
      fun _ => rfl }

/-- Delete documents by id; their versions cascade. -/
def Db.deleteDocuments (db : Db) (ids : List Uuid) : Db :=
  { db with
    documents := db.documents.deleteWhere fun d => d.id ∈ ids
    versions := db.versions.deleteWhere fun v => v.documentId ∈ ids }

/-- A document of its owner that is not in the trash. -/
def Db.activeDocument (db : Db) (id : Uuid) (userId : String) : Option StoredDocument :=
  (db.documents.find? id).filter fun d => d.ownerId = userId && !d.isDeleted

def Db.collectDocumentObjectKeys (db : Db) (documents : List StoredDocument) : List Key :=
  let versions := db.versions.rows.filter fun v => documents.any fun d => d.id = v.documentId
  let keys := (versions.map (·.filePath)).filter (· ≠ "")
  (keys ++ (documents.filterMap (·.thumbnailPath)).filter (· ≠ "")).eraseDups

section
variable (increment : Increment)

/-- The rows of a new document and its first version, with the quota charge. -/
def Db.addDocument (db : Db) (document : StoredDocument) (version : DocumentVersion)
    (limits : EffectiveLimits) : Option Db := do
  let (db, document) ← db.adjustDocumentStorage increment document document.size 1 (some limits)
  let db ← db.insertDocument document
  db.insertVersion version

def Db.resizeStoredDocument (db : Db) (document : StoredDocument) (newSize : Nat) :
    Option (Db × StoredDocument) :=
  let delta : Int := newSize - document.size
  let document := { document with fileSizeBytes := some newSize }
  if document.isDeleted then some (db, document)
  else db.adjustDocumentStorage increment document delta 0 none

/-- The rows of the next version of a document, with the quota move. -/
def Db.addVersion (db : Db) (document : StoredDocument) (version : DocumentVersion)
    (pageCount : Nat) : Option Db := do
  let db ← db.insertVersion version
  let document :=
    { document with currentVersion := version.versionNumber, pageCount := pageCount }
  let (db, document) ← db.resizeStoredDocument increment document version.fileSizeBytes
  some (db.flush document)

/-- Free the counter that holds an active document. -/
def Db.freeDocument (db : Db) (document : StoredDocument) : Option (Db × StoredDocument) :=
  if document.isDeleted then some (db, document)
  else db.adjustDocumentStorage increment document (-document.size) (-1) none

def Db.trashDocument (db : Db) (document : StoredDocument) (now : Time) : Option Db :=
  (db.freeDocument increment document).map fun (db, document) =>
    db.flush { document with isDeleted := true, deletedAt := some now }

def Db.restoreDocument (db : Db) (document : StoredDocument) (limits : Option EffectiveLimits) :
    Option Db :=
  let document := { document with isDeleted := false, deletedAt := none }
  (db.adjustDocumentStorage increment document document.size 1 limits).map fun (db, document) =>
    db.flush document

end

/-! ## Names of copies -/

def MAX_DOCUMENT_NAME_LENGTH : Nat := 255

def copySuffix (counter : Nat) : String :=
  if counter = 1 then " (copie)" else s!" (copie {counter})"

def copyCandidate (baseName : String) (counter : Nat) : String :=
  let maxBase := MAX_DOCUMENT_NAME_LENGTH - (copySuffix counter).length
  String.ofList (baseName.toList.take maxBase) ++ copySuffix counter

/-- Candidates from `counter` on; at most `fuel` of them can be taken. -/
def nextCopyNameFrom (baseName : String) (existingNames : List String) (counter : Nat) :
    Nat → String
  | 0 => copyCandidate baseName counter
  | fuel + 1 =>
    if copyCandidate baseName counter ∉ existingNames then copyCandidate baseName counter
    else nextCopyNameFrom baseName existingNames (counter + 1) fuel

def nextCopyName (baseName : String) (existingNames : List String) : String :=
  nextCopyNameFrom baseName existingNames 1 existingNames.length

/-! ## Requests -/

def FILE_SIZE_LIMIT : Nat := 250 * 1024 * 1024

structure UploadFile where
  data : Bytes
  filename : Option String
  contentType : Option String
deriving DecidableEq

section
variable (services : Services) (increment : Increment)

/-- `limits` are the effective limits read before the upload; `id` is the generated UUID. -/
def saveDocument (w : World) (userId name : String) (file : UploadFile)
    (folderId : Option Uuid) (limits : EffectiveLimits) (id : Uuid) : Option World :=
  let fileSize := file.data.length
  if fileSize > FILE_SIZE_LIMIT ∨ fileSize = 0 then none
  else
    let format := detectUploadFormat file.data file.filename file.contentType
    match if format.1 = "pdf" then services.countPdfPages file.data else some 0 with
    | none => none
    | some pageCount =>
      if !limits.admits fileSize then none
      else
        (w.generateUuid id).map fun w =>
          let key := originalDocumentKey userId id 1 format.1
          (w.uploadFile key file.data).rowsForUploadedObject key fun db =>
            db.addDocument increment
              { id := id, name := name, ownerId := userId, folderId := folderId
                pageCount := pageCount, currentVersion := 1, fileSizeBytes := some fileSize
                mimeType := some format.2, originalFormat := some format.1
                thumbnailPath := none, isDeleted := false, deletedAt := none
                quotaTenantId := none }
              { documentId := id, versionNumber := 1, filePath := key, fileSizeBytes := fileSize
                content := file.data, createdBy := userId, encryptionKey := none
                isEncrypted := false }
              limits

/-- The bytes and the key material that a copy of a version is stored with. -/
def copyVersionObject (objects : Key → Option Bytes) (source : DocumentVersion) (userId : String)
    (id : Uuid) : Option (Bytes × Option String) := do
  let stored ← objects source.filePath
  match source.isEncrypted, source.encryptionKey with
  | true, some dek =>
    if dek = "" then some (stored, none)
    else
      let plaintext ← services.decrypt stored dek source.documentId userId
      let (ciphertext, dek) := services.encrypt plaintext id userId
      some (ciphertext, some dek)
  | _, _ => some (stored, none)

def duplicateStoredDocument (w : World) (userId : String) (documentId : Uuid)
    (limits : EffectiveLimits) (id : Uuid) : Option World := do
  let source ← w.db.activeDocument documentId userId
  let version ← w.db.versions.find? (documentId, source.currentVersion)
  if !limits.admits source.size then none
  else
    let siblings := w.db.documents.rows.filter fun d =>
      d.ownerId = userId && !d.isDeleted && d.folderId = source.folderId
    let format := source.format
    let (data, dek) ← copyVersionObject services w.objects version userId id
    let w ← w.generateUuid id
    let key := originalDocumentKey userId id 1 format
    some ((w.uploadFile key data).rowsForUploadedObject key fun db =>
      db.addDocument increment
        { source with
          id := id, name := nextCopyName source.name (siblings.map (·.name)), ownerId := userId
          currentVersion := 1, fileSizeBytes := some source.size
          mimeType := some (orDefault source.mimeType "application/pdf")
          originalFormat := some format, thumbnailPath := none, isDeleted := false
          deletedAt := none, quotaTenantId := none }
        { version with
          documentId := id, versionNumber := 1, filePath := key, createdBy := userId
          encryptionKey := dek, isEncrypted := dek.isSome }
        limits)

/-- The object and the rows of the version after the current one. -/
def World.saveVersion (w : World) (document : StoredDocument) (data : Bytes) (pageCount : Nat)
    (createdBy : String) : World :=
  let number := document.currentVersion + 1
  let key := getDocumentKey document.ownerId document.id number
  (w.uploadFile key data).rowsForUploadedObject key fun db =>
    db.addVersion increment document
      { documentId := document.id, versionNumber := number, filePath := key
        fileSizeBytes := data.length, content := data, createdBy := createdBy
        encryptionKey := none, isEncrypted := false }
      pageCount

/-- `editGrant` is an active share of the document that lets the user edit it. -/
def createVersion (w : World) (userId : String) (documentId : Uuid) (data : Bytes)
    (editGrant : Bool) : Option World := do
  if data.length > FILE_SIZE_LIMIT ∨ !startsWith data (ascii "%PDF-") then none
  else
    let pageCount ← services.countPdfPages data
    let document ← (w.db.documents.find? documentId).filter fun d => !d.isDeleted
    if document.ownerId = userId ∨ editGrant then
      some (w.saveVersion increment document data pageCount userId)
    else none

def restoreOriginal (w : World) (userId : String) (documentId : Uuid) : Option World := do
  let document ← w.db.activeDocument documentId userId
  if document.currentVersion = 1 then some w
  else
    let original ← w.objects (getDocumentKey userId documentId 1)
    if !startsWith original (ascii "%PDF-") then none
    else
      let pageCount ← services.countPdfPages original
      some (w.saveVersion increment document original pageCount userId)

/-- Rows first, objects after the commit. -/
def World.hardDelete (w : World) (document : StoredDocument) : Option World :=
  (w.db.freeDocument increment document).map fun (db, document) =>
    { w with
      db := db.deleteDocuments [document.id]
      objects := deleteObjects w.objects (db.collectDocumentObjectKeys [document]) }

def deleteStoredDocument (w : World) (userId : String) (documentId : Uuid) (permanent : Bool)
    (now : Time) : Option World := do
  let document ← (w.db.documents.find? documentId).filter fun d =>
    d.ownerId = userId && (permanent || !d.isDeleted)
  if permanent then w.hardDelete increment document
  else (w.db.trashDocument increment document now).map fun db => { w with db := db }

def restoreStoredDocument (w : World) (userId : String) (documentId : Uuid)
    (limits : EffectiveLimits) : Option World := do
  let document ← (w.db.documents.find? documentId).filter fun d =>
    d.ownerId = userId && d.isDeleted
  (w.db.restoreDocument increment document (some limits)).map fun db => { w with db := db }

/-- `admin/documents.py`, `delete_document`. -/
def adminDeleteDocument (w : World) (documentId : Uuid) (permanent : Bool) (now : Time) :
    Option World := do
  let document ← w.db.documents.find? documentId
  if permanent then w.hardDelete increment document
  else (w.db.trashDocument increment document now).map fun db => { w with db := db }

/-- `admin/documents.py`, `restore_document`. -/
def adminRestoreDocument (w : World) (documentId : Uuid) : Option World := do
  let document ← (w.db.documents.find? documentId).filter (·.isDeleted)
  (w.db.restoreDocument increment document none).map fun db => { w with db := db }

end

def uploadDocumentThumbnail (w : World) (userId : String) (documentId : Uuid) (image : Bytes) :
    Option World := do
  if image.length > 2 * 1024 * 1024 then none
  else
    let (extension, _) ← detectThumbnailFormat image
    let document ← w.db.activeDocument documentId userId
    let key := getThumbnailKey userId documentId extension
    let w := w.uploadFile key image
    let stale := (document.thumbnailPath.toList).filter fun old => old ≠ "" && old ≠ key
    some
      { w with
        db := w.db.flush { document with thumbnailPath := some key }
        objects := deleteObjects w.objects stale }

/-! ## Readers -/

/-- The object that the editor loads: the current version in the original format. -/
def loadStoredDocumentKey (d : StoredDocument) : Key :=
  originalDocumentKey d.ownerId d.id d.currentVersion d.format

/-- `viewGrant` is an active share of the document with the user. -/
def loadStoredDocument (w : World) (userId : String) (documentId : Uuid) (viewGrant : Bool) :
    Option Bytes := do
  let document ← (w.db.documents.find? documentId).filter fun d => !d.isDeleted
  if document.ownerId = userId ∨ viewGrant then w.objects (loadStoredDocumentKey document)
  else none

/-- `storage_service.load_document_file`. -/
def loadDocumentFile (services : Services) (w : World) (documentId : Uuid) (userId : String) :
    Option Bytes := do
  let document ← w.db.activeDocument documentId userId
  let version ← w.db.versions.find? (documentId, document.currentVersion)
  let stored ← w.objects (getDocumentKey userId documentId document.currentVersion)
  match version.isEncrypted, version.encryptionKey with
  | true, some dek => if dek = "" then some stored else services.decrypt stored dek documentId userId
  | _, _ => some stored

/-! ## The trash purge -/

def PURGE_BATCH_SIZE : Nat := 200

/-- Documents trashed before `cutoff`, which the purge may select. -/
def expired (cutoff : Time) (d : StoredDocument) : Bool :=
  d.isDeleted && d.deletedAt.any (· < cutoff)

/-- A batch of expired trash, as large as it can be; which documents come first is up to the
database. -/
def Db.purgeBatch (db : Db) (cutoff : Time) (ids : List Uuid) : Option (List StoredDocument) :=
  let trash := db.documents.rows.filter (expired cutoff)
  let documents := trash.filter fun d => d.id ∈ ids
  if documents ≠ [] ∧ documents.length = min PURGE_BATCH_SIZE trash.length then some documents
  else none

/-- Object keys of a batch, all versions and the thumbnails. -/
def Db.purgeKeys (db : Db) (documents : List StoredDocument) : List Key :=
  let versions := db.versions.rows.filter fun v => documents.any fun d => d.id = v.documentId
  (versions.map (·.filePath)).filter (· ≠ "") ++
    (documents.filterMap (·.thumbnailPath)).filter (· ≠ "")

/-- One round of the purge, run without interruption. -/
def purgeTrashedDocuments (w : World) (cutoff : Time) (ids : List Uuid) : Option World :=
  (w.db.purgeBatch cutoff ids).map fun documents =>
    { w with
      db := w.db.deleteDocuments (documents.map (·.id))
      objects := deleteObjects w.objects (w.db.purgeKeys documents) }

end GigaPdf
