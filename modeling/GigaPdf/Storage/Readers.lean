import GigaPdf.Storage.Files

/-!
# Readers and the versions they open

A save records the key of its object in the version row. The readers build the key again
from the document's row, each in its own way.
-/

namespace GigaPdf

/-- Every reader builds the key that the version row records, and opening an active
document gives the bytes that its current version was saved with. -/
structure ReadersOpen (services : Services) (w : World) (d : StoredDocument) : Prop where
  current : ∃ v ∈ w.db.versions.rows, v.key = (d.id, d.currentVersion) ∧
    loadStoredDocumentKey d = v.filePath ∧
    getDocumentKey d.ownerId d.id d.currentVersion = v.filePath ∧
    (d.isDeleted = false →
      (∀ userId viewGrant, userId = d.ownerId ∨ viewGrant = true →
        loadStoredDocument w userId d.id viewGrant = some v.content) ∧
      loadDocumentFile services w d.id d.ownerId = some v.content)
  original : ∃ v ∈ w.db.versions.rows, v.key = (d.id, 1) ∧
    getDocumentKey d.ownerId d.id 1 = v.filePath

theorem storedExtension_eq_pdf {format : String} (h : format ∈ SUPPORTED_FORMATS) :
    storedExtension format = "pdf" ↔ format = "pdf" := by
  have nonempty := (supported_plain format h).1
  by_cases hf : format = "pdf"
  · simp [storedExtension, hf]
  · simp [storedExtension, hf, nonempty]

theorem versionKey_extension_inj {u : String} {d : Uuid} {n : Nat} {e e' : String}
    (he : '/' ∉ e.toList) (he' : '/' ∉ e'.toList) :
    versionKey u d n e = versionKey u d n e' ↔ e = e' :=
  ⟨fun h => (versionKey_inj he he' h).2.2.2, fun h => h ▸ rfl⟩

/-- The editor's key is the recorded one for a PDF, and for the first version of any format. -/
theorem loadStoredDocumentKey_eq_iff {d : StoredDocument} (h : d.format ∈ SUPPORTED_FORMATS) :
    loadStoredDocumentKey d = recordedKey d d.currentVersion ↔
      d.format = "pdf" ∨ d.currentVersion = 1 := by
  rw [loadStoredDocumentKey, originalDocumentKey_eq, recordedKey_eq,
    versionKey_extension_inj (storedExtension_noSlash h) (recordedExtension_noSlash h _),
    recordedExtension]
  by_cases hn : d.currentVersion = 1
  · simp [hn]
  · simp [hn, storedExtension_eq_pdf h]

/-- The storage service's key is the recorded one for a PDF, and for every later version. -/
theorem getDocumentKey_eq_iff {d : StoredDocument} (h : d.format ∈ SUPPORTED_FORMATS) (n : Nat) :
    getDocumentKey d.ownerId d.id n = recordedKey d n ↔ d.format = "pdf" ∨ n ≠ 1 := by
  rw [getDocumentKey_eq, recordedKey_eq,
    versionKey_extension_inj (by decide) (recordedExtension_noSlash h _), recordedExtension]
  by_cases hn : n = 1
  · simp only [hn, if_true, ne_eq, not_true_eq_false, or_false]
    rw [eq_comm, storedExtension_eq_pdf h]
  · simp [hn]

theorem loadStoredDocument_eq {w : World} {d : StoredDocument} (hd : d ∈ w.db.documents.rows)
    (active : d.isDeleted = false) {userId : String} {viewGrant : Bool}
    (allowed : userId = d.ownerId ∨ viewGrant = true) :
    loadStoredDocument w userId d.id viewGrant = w.objects (loadStoredDocumentKey d) := by
  have found : (w.db.documents.find? d.id).filter (fun d => !d.isDeleted) = some d := by
    rw [Table.find?_of_mem hd]
    simp [Option.filter_some, active]
  simp only [loadStoredDocument, found, Option.bind_eq_bind, Option.bind_some]
  rw [if_pos]
  exact allowed.imp Eq.symm id

theorem loadDocumentFile_eq {services : Services} {w : World} {d : StoredDocument}
    {v : DocumentVersion} (hd : d ∈ w.db.documents.rows) (active : d.isDeleted = false)
    (hv : v ∈ w.db.versions.rows) (hkey : v.key = (d.id, d.currentVersion))
    (plain : v.isEncrypted = false) :
    loadDocumentFile services w d.id d.ownerId =
      w.objects (getDocumentKey d.ownerId d.id d.currentVersion) := by
  have found : w.db.activeDocument d.id d.ownerId = some d := by
    unfold Db.activeDocument
    rw [Table.find?_of_mem hd]
    simp [Option.filter_some, active]
  have version : w.db.versions.find? (d.id, d.currentVersion) = some v :=
    Table.find?_eq_some.mpr ⟨hv, hkey⟩
  simp only [loadDocumentFile, found, version, Option.bind_eq_bind, Option.bind_some, plain]
  cases w.objects (getDocumentKey d.ownerId d.id d.currentVersion) <;> rfl

end GigaPdf
