import GigaPdf.Storage.Frames
import GigaPdf.Storage.QuotaBulk

/-!
# Versions and their objects

Every version row has its object, under the key that the save recorded, and every
document has the versions from 1 to its current one. The invariant holds of every run
without account erasure, which deletes by prefix.
-/

namespace GigaPdf

/-- The key that a save records for a version: the first version keeps the format of the
upload, later ones are PDF files. -/
def recordedKey (d : StoredDocument) (n : Nat) : Key :=
  if n = 1 then originalDocumentKey d.ownerId d.id 1 d.format else getDocumentKey d.ownerId d.id n

def recordedExtension (d : StoredDocument) (n : Nat) : String :=
  if n = 1 then storedExtension d.format else "pdf"

structure FilesStored (w : World) : Prop where
  versionOf : ∀ v ∈ w.db.versions.rows, ∃ d ∈ w.db.documents.rows, d.id = v.documentId ∧
    1 ≤ v.versionNumber ∧ v.versionNumber ≤ d.currentVersion ∧
    v.filePath = recordedKey d v.versionNumber ∧ v.isEncrypted = false
  complete : ∀ d ∈ w.db.documents.rows, 1 ≤ d.currentVersion ∧
    ∀ n, 1 ≤ n → n ≤ d.currentVersion → (w.db.versions.find? (d.id, n)).isSome
  stored : ∀ v ∈ w.db.versions.rows, w.objects v.filePath = some v.content
  supported : ∀ d ∈ w.db.documents.rows, d.format ∈ SUPPORTED_FORMATS
  thumbnail : ∀ d ∈ w.db.documents.rows, ∀ key, d.thumbnailPath = some key →
    (∃ extension, plainExtension extension ∧ key = getThumbnailKey d.ownerId d.id extension) ∧
      (w.objects key).isSome
  issued : ∀ d ∈ w.db.documents.rows, d.id ∈ w.issued

/-! ## Keys -/

theorem storedExtension_noSlash {format : String} (h : format ∈ SUPPORTED_FORMATS) :
    '/' ∉ (storedExtension format).toList := by
  unfold storedExtension
  split
  · decide
  · exact (supported_plain format h).2

theorem recordedKey_eq (d : StoredDocument) (n : Nat) :
    recordedKey d n = versionKey d.ownerId d.id n (recordedExtension d n) := by
  unfold recordedKey recordedExtension
  split
  · rename_i h
    rw [h, originalDocumentKey_eq]
  · exact getDocumentKey_eq _ _ _

theorem recordedExtension_noSlash {d : StoredDocument} (h : d.format ∈ SUPPORTED_FORMATS)
    (n : Nat) : '/' ∉ (recordedExtension d n).toList := by
  unfold recordedExtension
  split
  · exact storedExtension_noSlash h
  · decide

/-- Different versions, of one document or of two, are recorded under different keys. -/
theorem recordedKey_inj {d d' : StoredDocument} (h : d.format ∈ SUPPORTED_FORMATS)
    (h' : d'.format ∈ SUPPORTED_FORMATS) {n n' : Nat} (e : recordedKey d n = recordedKey d' n') :
    d.id = d'.id ∧ n = n' := by
  rw [recordedKey_eq, recordedKey_eq] at e
  obtain ⟨-, hid, hn, -⟩ := versionKey_inj (recordedExtension_noSlash h n)
    (recordedExtension_noSlash h' n') e
  exact ⟨hid, hn⟩

/-- The key of a version or a thumbnail of a document. -/
inductive BelongsTo (id : Uuid) : Key → Prop
  | version (u : String) (n : Nat) (e : String) (plain : '/' ∉ e.toList) :
      BelongsTo id (versionKey u id n e)
  | thumbnail (u : String) (e : String) (plain : plainExtension e) :
      BelongsTo id (getThumbnailKey u id e)

theorem BelongsTo.unique {id id' : Uuid} {key key' : Key} (h : BelongsTo id key)
    (h' : BelongsTo id' key') (same : key = key') : id = id' := by
  cases h with
  | version u n e plain =>
    cases h' with
    | version u' n' e' plain' => exact (versionKey_inj plain plain' same).2.1
    | thumbnail u' e' _ => exact absurd same (versionKey_ne_thumbnailKey u u' id id' n e e')
  | thumbnail u e plain =>
    cases h' with
    | version u' n' e' _ => exact absurd same.symm (versionKey_ne_thumbnailKey u' u id' id n' e' e)
    | thumbnail u' e' plain' => exact thumbnailKey_inj plain plain' same

theorem recordedKey_belongs {d : StoredDocument} (h : d.format ∈ SUPPORTED_FORMATS) (n : Nat) :
    BelongsTo d.id (recordedKey d n) :=
  recordedKey_eq d n ▸ .version _ _ _ (recordedExtension_noSlash h n)

theorem FilesStored.version_belongs {w : World} (h : FilesStored w) {v : DocumentVersion}
    (hv : v ∈ w.db.versions.rows) : BelongsTo v.documentId v.filePath := by
  obtain ⟨d, hd, hid, -, -, hpath, -⟩ := h.versionOf v hv
  rw [hpath, ← hid]
  exact recordedKey_belongs (h.supported d hd) _

theorem FilesStored.thumbnail_belongs {w : World} (h : FilesStored w) {d : StoredDocument}
    (hd : d ∈ w.db.documents.rows) {key : Key} (hkey : d.thumbnailPath = some key) :
    BelongsTo d.id key := by
  obtain ⟨⟨extension, plain, rfl⟩, -⟩ := h.thumbnail d hd key hkey
  exact .thumbnail _ _ plain

/-- The version row of a document and a number. -/
theorem FilesStored.version {w : World} (h : FilesStored w) {d : StoredDocument}
    (hd : d ∈ w.db.documents.rows) {n : Nat} (h1 : 1 ≤ n) (hn : n ≤ d.currentVersion) :
    ∃ v ∈ w.db.versions.rows, v.documentId = d.id ∧ v.versionNumber = n ∧
      v.filePath = recordedKey d n ∧ v.isEncrypted = false := by
  obtain ⟨v, hv⟩ := Option.isSome_iff_exists.mp ((h.complete d hd).2 n h1 hn)
  obtain ⟨hrow, hkey⟩ := Table.find?_eq_some.mp hv
  obtain ⟨hid, hnumber⟩ := Prod.mk.inj hkey
  obtain ⟨d', hd', hid', -, -, hpath, hplain⟩ := h.versionOf v hrow
  have same : d' = d := w.db.documents.eq_of_key_eq hd' hd (hid'.trans hid)
  subst same
  exact ⟨v, hrow, hid, hnumber, hnumber ▸ hpath, hplain⟩

/-! ## Requests that leave the files alone -/

/-- What the object store depends on in a document's row. -/
def fileView (d : StoredDocument) : Uuid × String × Nat × Option String × Option String :=
  (d.id, d.ownerId, d.currentVersion, d.originalFormat, d.thumbnailPath)

/-- The same versions and objects, for documents that differ in other columns only. -/
structure SameFiles (w w' : World) : Prop where
  documents : w'.db.documents.rows.map fileView = w.db.documents.rows.map fileView
  versions : w'.db.versions = w.db.versions
  objects : w'.objects = w.objects
  issued : ∀ id ∈ w.issued, id ∈ w'.issued

theorem SameFiles.document {w w' : World} (h : SameFiles w w') {d : StoredDocument}
    (hd : d ∈ w.db.documents.rows) : ∃ d' ∈ w'.db.documents.rows, fileView d' = fileView d := by
  have : fileView d ∈ w'.db.documents.rows.map fileView := h.documents ▸ List.mem_map_of_mem hd
  exact List.mem_map.mp this

theorem SameFiles.document' {w w' : World} (h : SameFiles w w') {d : StoredDocument}
    (hd : d ∈ w'.db.documents.rows) : ∃ d' ∈ w.db.documents.rows, fileView d' = fileView d := by
  have : fileView d ∈ w.db.documents.rows.map fileView := h.documents ▸ List.mem_map_of_mem hd
  exact List.mem_map.mp this

theorem recordedKey_congr {d d' : StoredDocument} (h : fileView d = fileView d') (n : Nat) :
    recordedKey d n = recordedKey d' n := by
  simp only [fileView, Prod.mk.injEq] at h
  obtain ⟨hid, howner, -, hformat, -⟩ := h
  simp only [recordedKey, StoredDocument.format, hid, howner, hformat]

theorem FilesStored.sameFiles {w w' : World} (h : FilesStored w) (same : SameFiles w w') :
    FilesStored w' := by
  constructor
  · intro v hv
    rw [same.versions] at hv
    obtain ⟨d, hd, hid, h1, hn, hpath, hplain⟩ := h.versionOf v hv
    obtain ⟨d', hd', hview⟩ := same.document hd
    rw [← recordedKey_congr hview] at hpath
    simp only [fileView, Prod.mk.injEq] at hview
    exact ⟨d', hd', hview.1.trans hid, h1, by omega, hpath, hplain⟩
  · intro d hd
    obtain ⟨d', hd', hview⟩ := same.document' hd
    simp only [fileView, Prod.mk.injEq] at hview
    obtain ⟨hid, -, hcurrent, -⟩ := hview
    rw [same.versions, ← hid, ← hcurrent]
    exact h.complete d' hd'
  · intro v hv
    rw [same.versions] at hv
    rw [same.objects]
    exact h.stored v hv
  · intro d hd
    obtain ⟨d', hd', hview⟩ := same.document' hd
    simp only [fileView, Prod.mk.injEq] at hview
    have := h.supported d' hd'
    rwa [StoredDocument.format, hview.2.2.2.1] at this
  · intro d hd key hkey
    obtain ⟨d', hd', hview⟩ := same.document' hd
    simp only [fileView, Prod.mk.injEq] at hview
    obtain ⟨hid, howner, -, -, hthumb⟩ := hview
    rw [← hid, ← howner, same.objects]
    exact h.thumbnail d' hd' key (hthumb.trans hkey)
  · intro d hd
    obtain ⟨d', hd', hview⟩ := same.document' hd
    simp only [fileView, Prod.mk.injEq] at hview
    exact same.issued _ (hview.1 ▸ h.issued d' hd')

theorem SameFiles.refl (w : World) : SameFiles w w := ⟨rfl, rfl, rfl, fun _ h => h⟩

variable {increment : Increment}

theorem trashDocument_sameFiles {w : World} {db' : Db} {d : StoredDocument} {now : Time}
    (hd : w.db.documents.find? d.id = some d)
    (h : w.db.trashDocument increment d now = some db') : SameFiles w { w with db := db' } := by
  have moved := trashDocument_spec h
  refine ⟨?_, moved.versions, rfl, fun _ h => h⟩
  rw [moved.documents]
  exact flush_map (d := { d with isDeleted := true, deletedAt := some now }) hd fileView rfl

theorem restoreDocument_sameFiles {w : World} {db' : Db} {d : StoredDocument}
    {limits : Option EffectiveLimits} (hd : w.db.documents.find? d.id = some d)
    (h : w.db.restoreDocument increment d limits = some db') :
    SameFiles w { w with db := db' } := by
  obtain ⟨t, moved⟩ := restoreDocument_spec h
  refine ⟨?_, moved.versions, rfl, fun _ h => h⟩
  rw [moved.documents]
  exact flush_map
    (d := { d with isDeleted := false, deletedAt := none, quotaTenantId := t }) hd fileView rfl

theorem deleteFolder_sameFiles {w w' : World} {userId : String} {folderId : Uuid} {cascade : Bool}
    {now : Time} (h : deleteFolder increment w userId folderId cascade now = some w') :
    SameFiles w w' := by
  simp only [deleteFolder, Option.bind_eq_bind, Option.bind_eq_some_iff,
    Option.ite_none_left_eq_some, Option.some.injEq] at h
  obtain ⟨subtree, -, -, db₁, hrelease, rfl⟩ := h
  have moved := releaseDocuments_frame hrelease
  refine ⟨?_, moved.versions, rfl, fun _ h => h⟩
  refine (update_map db₁.documents.rows _ _ fileView (by intro; rfl)).trans ?_
  rw [moved.documents]
  exact update_map w.db.documents.rows _ _ fileView (by intro; rfl)

theorem moveDocument_sameFiles {w w' : World} {userId : String} {documentId : Uuid}
    {folderId : Option Uuid} (h : moveDocument w userId documentId folderId = some w') :
    SameFiles w w' := by
  simp only [moveDocument, Option.bind_eq_bind, Option.bind_eq_some_iff, Option.some.injEq] at h
  obtain ⟨d, hd, -, -, rfl⟩ := h
  obtain ⟨-, hfind, -⟩ := activeDocument_spec hd
  refine ⟨?_, rfl, rfl, fun _ h => h⟩
  exact flush_map (d := { d with folderId := folderId }) hfind fileView rfl

theorem createFolder_sameFiles {w w' : World} {userId name : String} {parentId : Option Uuid}
    {id : Uuid} (h : createFolder w userId name parentId id = some w') : SameFiles w w' := by
  simp only [createFolder, Option.bind_eq_bind, Option.bind_eq_some_iff, Option.some.injEq] at h
  obtain ⟨-, -, issued, hissued, folders, -, rfl⟩ := h
  obtain ⟨-, rfl⟩ := generateUuid_spec hissued
  exact ⟨rfl, rfl, rfl, fun _ h => List.mem_cons_of_mem _ h⟩

theorem moveFolder_sameFiles {w w' : World} {userId : String} {folderId : Uuid}
    {parentId : Option Uuid} (h : moveFolder w userId folderId parentId = some w') :
    SameFiles w w' := by
  simp only [moveFolder, Option.bind_eq_bind, Option.bind_eq_some_iff,
    Option.ite_none_left_eq_some, Option.some.injEq] at h
  obtain ⟨-, folder, -, parent, -, -, rfl⟩ := h
  exact ⟨rfl, rfl, rfl, fun _ h => h⟩

/-! ## Requests that write objects -/

/-- An object under a key that no version has changes no version's object. -/
theorem putObject_other {objects : Key → Option Bytes} {key k : Key} {data : Bytes} (h : k ≠ key) :
    putObject objects key data k = objects k := if_neg h

theorem deleteObjects_other {objects : Key → Option Bytes} {keys : List Key} {k : Key}
    (h : k ∉ keys) : deleteObjects objects keys k = objects k := if_neg h

theorem FilesStored.path_ne {w : World} (h : FilesStored w) {v : DocumentVersion}
    (hv : v ∈ w.db.versions.rows) {d : StoredDocument} (hd : d.format ∈ SUPPORTED_FORMATS) {n : Nat}
    (other : v.documentId ≠ d.id ∨ v.versionNumber ≠ n) : v.filePath ≠ recordedKey d n := by
  obtain ⟨d', hd', hid, -, -, hpath, -⟩ := h.versionOf v hv
  intro e
  obtain ⟨hsame, hn⟩ := recordedKey_inj (h.supported d' hd') hd (hpath.symm.trans e)
  rcases other with other | other
  · exact other (hid.symm.trans hsame)
  · exact other hn

/-- A thumbnail whose object stays. -/
theorem FilesStored.thumbnail_kept {w : World} (h : FilesStored w) {d : StoredDocument}
    (hd : d ∈ w.db.documents.rows) {key : Key} (hkey : d.thumbnailPath = some key)
    {objects : Key → Option Bytes} (same : objects key = w.objects key) :
    (∃ extension, plainExtension extension ∧ key = getThumbnailKey d.ownerId d.id extension) ∧
      (objects key).isSome := by
  rw [same]
  exact h.thumbnail d hd key hkey

/-- Some row refers to the object under a key. -/
def Db.refersTo (db : Db) (key : Key) : Prop :=
  (∃ v ∈ db.versions.rows, v.filePath = key) ∨ ∃ d ∈ db.documents.rows, d.thumbnailPath = some key

/-- Objects that no row refers to do not matter. -/
theorem FilesStored.withObjects {w : World} (h : FilesStored w) {objects : Key → Option Bytes}
    {issued : List Uuid} (same : ∀ k, w.db.refersTo k → objects k = w.objects k)
    (more : ∀ id ∈ w.issued, id ∈ issued) :
    FilesStored { w with objects := objects, issued := issued } := by
  refine ⟨h.versionOf, h.complete, fun v hv => ?_, h.supported, fun d hd key hkey => ?_,
    fun d hd => more _ (h.issued d hd)⟩
  · exact (same _ (.inl ⟨v, hv, rfl⟩)).trans (h.stored v hv)
  · exact h.thumbnail_kept hd hkey (same key (.inr ⟨d, hd, hkey⟩))

/-- A version key that no version row has. -/
theorem FilesStored.not_refersTo {w : World} (h : FilesStored w) {u : String} {id : Uuid} {n : Nat}
    {e : String} (versions : ∀ v ∈ w.db.versions.rows, v.filePath ≠ versionKey u id n e) {k : Key}
    (hk : w.db.refersTo k) : k ≠ versionKey u id n e := by
  rcases hk with ⟨v, hv, rfl⟩ | ⟨d, hd, hkey⟩
  · exact versions v hv
  · obtain ⟨⟨extension, -, rfl⟩, -⟩ := h.thumbnail d hd k hkey
    exact (versionKey_ne_thumbnailKey _ _ _ _ _ _ _).symm

theorem FilesStored.unused {w : World} (h : FilesStored w) {id : Uuid} (fresh : id ∉ w.issued) :
    (∀ d ∈ w.db.documents.rows, d.id ≠ id) ∧ ∀ v ∈ w.db.versions.rows, v.documentId ≠ id := by
  have documents : ∀ d ∈ w.db.documents.rows, d.id ≠ id := by
    rintro d hd rfl
    exact fresh (h.issued d hd)
  refine ⟨documents, fun v hv => ?_⟩
  obtain ⟨d, hd, hid, -⟩ := h.versionOf v hv
  exact hid ▸ documents d hd

/-- A put that is taken back leaves the other objects. -/
theorem deleteObjects_put {objects : Key → Option Bytes} {key k : Key} {data : Bytes} (h : k ≠ key) :
    deleteObjects (putObject objects key data) [key] k = objects k := by
  rw [deleteObjects_other (by simpa using h), putObject_other h]

/-- A new document with its first version, or nothing when the rows fail. -/
theorem FilesStored.newDocument {w : World} (h : FilesStored w) {d : StoredDocument}
    {v : DocumentVersion} {limits : EffectiveLimits} (fresh : d.id ∉ w.issued)
    (hcurrent : d.currentVersion = 1) (hformat : d.format ∈ SUPPORTED_FORMATS)
    (hthumb : d.thumbnailPath = none) (hid : v.documentId = d.id) (hn : v.versionNumber = 1)
    (hpath : v.filePath = recordedKey d 1) (hplain : v.isEncrypted = false) :
    FilesStored ((({ w with issued := d.id :: w.issued } : World).uploadFile v.filePath
      v.content).rowsForUploadedObject v.filePath fun db =>
        db.addDocument increment d v limits) := by
  obtain ⟨newDoc, newVersion⟩ := h.unused fresh
  have other : ∀ k, w.db.refersTo k → k ≠ v.filePath := by
    intro k hk
    rw [hpath, recordedKey_eq]
    refine h.not_refersTo (fun x hx => ?_) hk
    rw [← recordedKey_eq]
    exact h.path_ne hx hformat (.inl (newVersion x hx))
  unfold World.rowsForUploadedObject World.uploadFile
  split
  · rename_i db' hadd
    obtain ⟨⟨t, hdocs⟩, hversions, -⟩ := addDocument_spec hadd
    have hlisted : ∀ x, x ∈ db'.documents.rows ↔
        x = { d with quotaTenantId := t } ∨ x ∈ w.db.documents.rows := by
      intro x
      rw [hdocs, List.mem_cons]
    have vlisted : ∀ x, x ∈ db'.versions.rows ↔ x = v ∨ x ∈ w.db.versions.rows := by
      intro x
      rw [hversions, List.mem_cons]
    constructor
    case versionOf =>
      intro x hx
      rcases (vlisted x).mp hx with rfl | hx
      · exact ⟨{ d with quotaTenantId := t }, (hlisted _).mpr (.inl rfl), hid.symm,
          by omega, by dsimp only; omega, hn ▸ hpath, hplain⟩
      · obtain ⟨d', hd', rest⟩ := h.versionOf x hx
        exact ⟨d', (hlisted _).mpr (.inr hd'), rest⟩
    case complete =>
      intro x hx
      rcases (hlisted x).mp hx with rfl | hx
      · refine ⟨by dsimp only; omega, fun n h1 hle => ?_⟩
        dsimp only at hle
        have : v.key = (d.id, n) := Prod.ext hid (by dsimp only [DocumentVersion.key]; omega)
        exact Table.isSome_find?_of_mem ((vlisted v).mpr (.inl rfl)) this
      · obtain ⟨h1, hall⟩ := h.complete x hx
        exact ⟨h1, fun n hn hle =>
          Table.isSome_find?_mono (fun y hy => (vlisted y).mpr (.inr hy)) (hall n hn hle)⟩
    case stored =>
      intro x hx
      rcases (vlisted x).mp hx with rfl | hx
      · exact if_pos rfl
      · exact (putObject_other (other _ (.inl ⟨x, hx, rfl⟩))).trans (h.stored x hx)
    case supported =>
      intro x hx
      rcases (hlisted x).mp hx with rfl | hx
      · exact hformat
      · exact h.supported x hx
    case thumbnail =>
      intro x hx key hkey
      rcases (hlisted x).mp hx with rfl | hx
      · exact absurd (hthumb.symm.trans hkey) (by simp)
      · exact h.thumbnail_kept hx hkey (putObject_other (other key (.inr ⟨x, hx, hkey⟩)))
    case issued =>
      intro x hx
      rcases (hlisted x).mp hx with rfl | hx
      · exact List.mem_cons_self
      · exact List.mem_cons_of_mem _ (h.issued x hx)
  · exact h.withObjects (fun k hk => deleteObjects_put (other k hk))
      fun id hid => List.mem_cons_of_mem _ hid

theorem recordedKey_succ (d : StoredDocument) {n : Nat} (hn : 1 ≤ n) :
    recordedKey d (n + 1) = getDocumentKey d.ownerId d.id (n + 1) := by
  rw [recordedKey, if_neg (by omega)]

/-- No version has the key of a document's next version yet. -/
theorem FilesStored.nextKey_unused {w : World} (h : FilesStored w) {d : StoredDocument}
    (hd : d ∈ w.db.documents.rows) : ∀ v ∈ w.db.versions.rows,
      v.filePath ≠ getDocumentKey d.ownerId d.id (d.currentVersion + 1) := by
  intro v hv
  rw [← recordedKey_succ d (h.complete d hd).1]
  refine h.path_ne hv (h.supported d hd) ?_
  obtain ⟨d', hd', hid, -, hle, -⟩ := h.versionOf v hv
  by_cases hsame : d'.id = d.id
  · have := w.db.documents.eq_of_key_eq hd' hd hsame
    subst this
    right
    omega
  · left
    exact fun e => hsame (hid.trans e)

/-- The versions there were, after their document is written again. -/
theorem FilesStored.versionOf_flushed {w : World} (h : FilesStored w) {d d' : StoredDocument}
    (hrow : d ∈ w.db.documents.rows) {rows : List StoredDocument}
    (listed : ∀ x, x ∈ rows ↔ x = d' ∨ x ∈ w.db.documents.rows ∧ x.id ≠ d.id)
    (id : d'.id = d.id) (current : d.currentVersion ≤ d'.currentVersion)
    (key : ∀ n, recordedKey d' n = recordedKey d n)
    {v : DocumentVersion} (hv : v ∈ w.db.versions.rows) : ∃ e ∈ rows, e.id = v.documentId ∧
      1 ≤ v.versionNumber ∧ v.versionNumber ≤ e.currentVersion ∧
      v.filePath = recordedKey e v.versionNumber ∧ v.isEncrypted = false := by
  obtain ⟨e, he, hid, h1, hle, hpath, hplain⟩ := h.versionOf v hv
  by_cases hsame : e.id = d.id
  · have := w.db.documents.eq_of_key_eq he hrow hsame
    subst this
    exact ⟨d', (listed d').mpr (.inl rfl), id.trans hid, h1, hle.trans current,
      hpath.trans (key _).symm, hplain⟩
  · exact ⟨e, (listed e).mpr (.inr ⟨he, hsame⟩), hid, h1, hle, hpath, hplain⟩

/-- The next version of a document, or nothing when the rows fail. -/
theorem FilesStored.saveVersion {w : World} (h : FilesStored w) {d : StoredDocument}
    (hd : w.db.documents.find? d.id = some d) (data : Bytes) (pageCount : Nat)
    (createdBy : String) : FilesStored (w.saveVersion increment d data pageCount createdBy) := by
  have hrow := (Table.find?_eq_some.mp hd).1
  obtain ⟨hone, hall⟩ := h.complete d hrow
  have hkey := (recordedKey_succ d hone).symm
  have other : ∀ k, w.db.refersTo k →
      k ≠ getDocumentKey d.ownerId d.id (d.currentVersion + 1) := by
    intro k hk
    have unused := h.nextKey_unused hrow
    rw [getDocumentKey_eq] at unused ⊢
    exact h.not_refersTo unused hk
  unfold World.saveVersion World.rowsForUploadedObject World.uploadFile
  simp only
  split
  · rename_i db' hadd
    obtain ⟨hdocs, hversions, -⟩ := addVersion_spec hadd
    let d' : StoredDocument :=
      { d with
        currentVersion := d.currentVersion + 1, pageCount := pageCount
        fileSizeBytes := some data.length }
    let v : DocumentVersion :=
      { documentId := d.id, versionNumber := d.currentVersion + 1
        filePath := getDocumentKey d.ownerId d.id (d.currentVersion + 1)
        fileSizeBytes := data.length, content := data, createdBy := createdBy
        encryptionKey := none, isEncrypted := false }
    have hlisted : ∀ x, x ∈ db'.documents.rows ↔
        x = d' ∨ x ∈ w.db.documents.rows ∧ x.id ≠ d.id := by
      intro x
      rw [hdocs]
      exact mem_flush_iff (d := d') hd
    have vlisted : ∀ x, x ∈ db'.versions.rows ↔ x = v ∨ x ∈ w.db.versions.rows := by
      intro x
      rw [hversions, List.mem_cons]
    have stay : ∀ x ∈ w.db.versions.rows, x ∈ db'.versions.rows :=
      fun x hx => (vlisted x).mpr (.inr hx)
    constructor
    case versionOf =>
      intro x hx
      rcases (vlisted x).mp hx with rfl | hx
      · exact ⟨d', (hlisted _).mpr (.inl rfl), rfl, Nat.le_add_left _ _, Nat.le_refl _, hkey, rfl⟩
      · exact h.versionOf_flushed hrow hlisted rfl (Nat.le_succ _) (fun _ => rfl) hx
    case complete =>
      intro x hx
      rcases (hlisted x).mp hx with rfl | ⟨hx, -⟩
      · refine ⟨Nat.le_add_left _ _, fun n h1 hle => ?_⟩
        by_cases hn : n ≤ d.currentVersion
        · exact Table.isSome_find?_mono stay (hall n h1 hn)
        · have hn : n = d.currentVersion + 1 := by
            simp only [d'] at hle
            omega
          exact Table.isSome_find?_of_mem ((vlisted v).mpr (.inl rfl)) (by rw [hn]; rfl)
      · obtain ⟨h1, hx⟩ := h.complete x hx
        exact ⟨h1, fun n hn hle => Table.isSome_find?_mono stay (hx n hn hle)⟩
    case stored =>
      intro x hx
      rcases (vlisted x).mp hx with rfl | hx
      · exact if_pos rfl
      · exact (putObject_other (other _ (.inl ⟨x, hx, rfl⟩))).trans (h.stored x hx)
    case supported =>
      intro x hx
      rcases (hlisted x).mp hx with rfl | ⟨hx, -⟩
      · exact h.supported d hrow
      · exact h.supported x hx
    case thumbnail =>
      intro x hx key hkey
      rcases (hlisted x).mp hx with rfl | ⟨hx, -⟩
      · exact h.thumbnail_kept hrow hkey (putObject_other (other key (.inr ⟨d, hrow, hkey⟩)))
      · exact h.thumbnail_kept hx hkey (putObject_other (other key (.inr ⟨x, hx, hkey⟩)))
    case issued =>
      intro x hx
      rcases (hlisted x).mp hx with rfl | ⟨hx, -⟩
      · exact h.issued d hrow
      · exact h.issued x hx
  · exact h.withObjects (fun k hk => deleteObjects_put (other k hk)) fun _ hid => hid

/-! ## Requests that delete documents -/

/-- Documents go with their versions, and objects that belong to no other document. -/
theorem FilesStored.deleteDocuments {w : World} (h : FilesStored w) {db : Db} {ids : List Uuid}
    {keys : List Key} (hdocs : db.documents = w.db.documents) (hversions : db.versions = w.db.versions)
    (theirs : ∀ key ∈ keys, ∃ id ∈ ids, BelongsTo id key) :
    FilesStored
      { w with db := db.deleteDocuments ids, objects := deleteObjects w.objects keys } := by
  have other : ∀ {id key}, BelongsTo id key → id ∉ ids →
      deleteObjects w.objects keys key = w.objects key := by
    intro id key belongs kept
    refine deleteObjects_other fun hmem => ?_
    obtain ⟨gone, hgone, hkey⟩ := theirs key hmem
    exact kept (belongs.unique hkey rfl ▸ hgone)
  have dlisted : ∀ x, x ∈ (db.deleteDocuments ids).documents.rows ↔
      x ∈ w.db.documents.rows ∧ x.id ∉ ids := by
    intro x
    simp only [Db.deleteDocuments, Table.mem_deleteWhere, hdocs, decide_eq_false_iff_not]
  have vlisted : ∀ x, x ∈ (db.deleteDocuments ids).versions.rows ↔
      x ∈ w.db.versions.rows ∧ x.documentId ∉ ids := by
    intro x
    simp only [Db.deleteDocuments, Table.mem_deleteWhere, hversions, decide_eq_false_iff_not]
  constructor
  · intro v hv
    obtain ⟨hv, hkept⟩ := (vlisted v).mp hv
    obtain ⟨d, hd, hid, rest⟩ := h.versionOf v hv
    exact ⟨d, (dlisted d).mpr ⟨hd, hid ▸ hkept⟩, hid, rest⟩
  · intro d hd
    obtain ⟨hd, hkept⟩ := (dlisted d).mp hd
    obtain ⟨h1, hall⟩ := h.complete d hd
    refine ⟨h1, fun n hn hle => ?_⟩
    obtain ⟨v, hv⟩ := Option.isSome_iff_exists.mp (hall n hn hle)
    obtain ⟨hv, hkey⟩ := Table.find?_eq_some.mp hv
    have hid : v.documentId = d.id := (Prod.mk.inj hkey).1
    exact Option.isSome_iff_exists.mpr
      ⟨v, Table.find?_eq_some.mpr ⟨(vlisted v).mpr ⟨hv, hid ▸ hkept⟩, hkey⟩⟩
  · intro v hv
    obtain ⟨hv, hkept⟩ := (vlisted v).mp hv
    exact (other (h.version_belongs hv) hkept).trans (h.stored v hv)
  · intro d hd
    exact h.supported d ((dlisted d).mp hd).1
  · intro d hd key hkey
    obtain ⟨hd, hkept⟩ := (dlisted d).mp hd
    exact h.thumbnail_kept hd hkey (other (h.thumbnail_belongs hd hkey) hkept)
  · intro d hd
    exact h.issued d ((dlisted d).mp hd).1

/-- The keys collected for some documents: their versions and thumbnails. -/
theorem mem_purgeKeys {db : Db} {documents : List StoredDocument} {key : Key}
    (h : key ∈ db.purgeKeys documents) :
    (∃ v ∈ db.versions.rows, v.filePath = key ∧ ∃ d ∈ documents, d.id = v.documentId) ∨
      ∃ d ∈ documents, d.thumbnailPath = some key := by
  rcases List.mem_append.mp h with h | h
  · obtain ⟨v, hv, rfl⟩ := List.mem_map.mp (List.mem_filter.mp h).1
    obtain ⟨hv, hany⟩ := List.mem_filter.mp hv
    obtain ⟨d, hd, hid⟩ := List.any_eq_true.mp hany
    exact .inl ⟨v, hv, rfl, d, hd, of_decide_eq_true hid⟩
  · obtain ⟨d, hd, hthumb⟩ := List.mem_filterMap.mp (List.mem_filter.mp h).1
    exact .inr ⟨d, hd, hthumb⟩

theorem mem_collectKeys {db : Db} {documents : List StoredDocument} {key : Key}
    (h : key ∈ db.collectDocumentObjectKeys documents) : key ∈ db.purgeKeys documents := by
  simpa [Db.collectDocumentObjectKeys, Db.purgeKeys] using h

/-- The keys collected for some documents are their own. -/
theorem FilesStored.purgeKeys_belong {w : World} (h : FilesStored w)
    {documents : List StoredDocument} (hdocs : ∀ d ∈ documents, d ∈ w.db.documents.rows) :
    ∀ key ∈ w.db.purgeKeys documents, ∃ id ∈ documents.map (·.id), BelongsTo id key := by
  intro key hmem
  rcases mem_purgeKeys hmem with ⟨v, hv, rfl, d, hd, hid⟩ | ⟨d, hd, hthumb⟩
  · exact ⟨d.id, List.mem_map_of_mem hd, hid ▸ h.version_belongs hv⟩
  · exact ⟨d.id, List.mem_map_of_mem hd, h.thumbnail_belongs (hdocs d hd) hthumb⟩

/-! ## Runs -/

theorem hardDelete_filesStored {w w' : World} (h : FilesStored w) {d : StoredDocument}
    (hd : d ∈ w.db.documents.rows) (hw : w.hardDelete increment d = some w') : FilesStored w' := by
  obtain ⟨⟨db, d'⟩, hfree, rfl⟩ := Option.map_eq_some_iff.mp hw
  obtain ⟨moved, rfl⟩ := freeDocument_spec hfree
  refine h.deleteDocuments moved.documents moved.versions fun key hmem => ?_
  have same : db.purgeKeys [d'] = w.db.purgeKeys [d'] := by
    unfold Db.purgeKeys
    rw [moved.versions]
  have mine : ∀ x ∈ [d'], x ∈ w.db.documents.rows := by simpa using hd
  refine h.purgeKeys_belong mine key ?_
  rw [← same]
  exact mem_collectKeys hmem

theorem purgeTrashedDocuments_filesStored {w w' : World} (h : FilesStored w) {cutoff : Time}
    {ids : List Uuid} (hw : purgeTrashedDocuments w cutoff ids = some w') : FilesStored w' := by
  obtain ⟨documents, hbatch, rfl⟩ := Option.map_eq_some_iff.mp hw
  exact h.deleteDocuments rfl rfl (h.purgeKeys_belong fun d hd => (mem_purgeBatch hbatch hd).1)

theorem thumbnail_filesStored {w w' : World} (h : FilesStored w) {userId : String}
    {documentId : Uuid} {image : Bytes}
    (hw : uploadDocumentThumbnail w userId documentId image = some w') : FilesStored w' := by
  simp only [uploadDocumentThumbnail, Option.bind_eq_bind, Option.bind_eq_some_iff,
    Option.ite_none_left_eq_some, Option.some.injEq] at hw
  obtain ⟨-, ⟨extension, mime⟩, hformat, d, hd, rfl⟩ := hw
  obtain ⟨hid, hfind, howner, -⟩ := activeDocument_spec hd
  have hrow := (Table.find?_eq_some.mp hfind).1
  have plain := detectThumbnailFormat_plain hformat
  let key := getThumbnailKey userId documentId extension
  let stale := d.thumbnailPath.toList.filter fun old => old ≠ "" && old ≠ key
  have staleKey : ∀ k ∈ stale, d.thumbnailPath = some k ∧ k ≠ key := by
    intro k hk
    obtain ⟨hpath, hne⟩ := List.mem_filter.mp hk
    simp only [Bool.and_eq_true, decide_eq_true_eq] at hne
    exact ⟨by simpa using hpath, hne.2⟩
  let objects := deleteObjects (putObject w.objects key image) stale
  have keyStored : objects key = some image := by
    change deleteObjects _ _ _ = _
    rw [deleteObjects_other fun hk => (staleKey key hk).2 rfl]
    exact if_pos rfl
  -- The image and the stale thumbnail are under keys that no version and no other document has.
  have versionKept : ∀ v ∈ w.db.versions.rows, objects v.filePath = w.objects v.filePath := by
    intro v hv
    obtain ⟨e, he, -, -, -, hpath, -⟩ := h.versionOf v hv
    rw [recordedKey_eq] at hpath
    change deleteObjects _ _ _ = _
    rw [hpath, deleteObjects_other, putObject_other (versionKey_ne_thumbnailKey _ _ _ _ _ _ _)]
    intro hk
    obtain ⟨⟨old, -, hold⟩, -⟩ := h.thumbnail d hrow _ (staleKey _ hk).1
    exact versionKey_ne_thumbnailKey _ _ _ _ _ _ _ hold
  have otherKept : ∀ x ∈ w.db.documents.rows, x.id ≠ d.id → ∀ k, x.thumbnailPath = some k →
      objects k = w.objects k := by
    intro x hx hne k hk
    have theirs := h.thumbnail_belongs hx hk
    have mine : BelongsTo d.id key := hid ▸ .thumbnail _ _ plain
    change deleteObjects _ _ _ = _
    rw [deleteObjects_other, putObject_other]
    · intro same
      exact hne (theirs.unique mine same)
    · intro hstale
      exact hne (theirs.unique (h.thumbnail_belongs hrow (staleKey k hstale).1) rfl)
  let d' : StoredDocument :=
    { d with thumbnailPath := some (getThumbnailKey userId documentId extension) }
  have hlisted : ∀ x, x ∈ (w.db.flush d').documents.rows ↔
      x = d' ∨ x ∈ w.db.documents.rows ∧ x.id ≠ d.id := fun x => mem_flush_iff (d := d') hfind
  constructor
  case versionOf =>
    exact fun v hv => h.versionOf_flushed hrow hlisted rfl (Nat.le_refl _) (fun _ => rfl) hv
  case complete =>
    intro x hx
    rcases (hlisted x).mp hx with rfl | ⟨hx, -⟩
    · exact h.complete d hrow
    · exact h.complete x hx
  case stored =>
    intro v hv
    exact (versionKept v hv).trans (h.stored v hv)
  case supported =>
    intro x hx
    rcases (hlisted x).mp hx with rfl | ⟨hx, -⟩
    · exact h.supported d hrow
    · exact h.supported x hx
  case thumbnail =>
    intro x hx k hk
    rcases (hlisted x).mp hx with rfl | ⟨hx, hne⟩
    · cases hk
      refine ⟨⟨extension, plain, by simp only [d', howner, hid]⟩, ?_⟩
      exact Option.isSome_iff_exists.mpr ⟨image, keyStored⟩
    · exact h.thumbnail_kept hx hk (otherKept x hx hne k hk)
  case issued =>
    intro x hx
    rcases (hlisted x).mp hx with rfl | ⟨hx, -⟩
    · exact h.issued d hrow
    · exact h.issued x hx

theorem format_eq {d : StoredDocument} {format : String} (h : d.originalFormat = some format)
    (hf : format ∈ SUPPORTED_FORMATS) : d.format = format := by
  rw [StoredDocument.format, h]
  exact if_neg (supported_plain _ hf).1

theorem saveDocument_filesStored {services : Services} {w w' : World} (h : FilesStored w)
    {userId name : String} {file : UploadFile} {folderId : Option Uuid} {limits : EffectiveLimits}
    {id : Uuid}
    (hw : saveDocument services increment w userId name file folderId limits id = some w') :
    FilesStored w' := by
  obtain ⟨fresh, pageCount, rfl⟩ := saveDocument_spec hw
  have hsupported := detectUploadFormat_supported file.data file.filename file.contentType
  let d : StoredDocument :=
    { id := id, name := name, ownerId := userId, folderId := folderId, pageCount := pageCount
      currentVersion := 1, fileSizeBytes := some file.data.length
      mimeType := some (detectUploadFormat file.data file.filename file.contentType).2
      originalFormat := some (detectUploadFormat file.data file.filename file.contentType).1
      thumbnailPath := none, isDeleted := false, deletedAt := none, quotaTenantId := none }
  have hformat := format_eq (d := d) rfl hsupported
  exact h.newDocument (d := d) fresh rfl (hformat ▸ hsupported) rfl rfl rfl
    (by rw [recordedKey, if_pos rfl, hformat]) rfl

theorem copyVersionObject_plain {services : Services} {objects : Key → Option Bytes}
    {v : DocumentVersion} (hplain : v.isEncrypted = false) (userId : String) (id : Uuid) :
    copyVersionObject services objects v userId id = (objects v.filePath).map fun b => (b, none) := by
  unfold copyVersionObject
  rw [hplain]
  cases objects v.filePath <;> rfl

theorem duplicate_filesStored {services : Services} {w w' : World} (h : FilesStored w)
    {userId : String} {documentId : Uuid} {limits : EffectiveLimits} {id : Uuid}
    (hw : duplicateStoredDocument services increment w userId documentId limits id = some w') :
    FilesStored w' := by
  obtain ⟨fresh, source, version, data, dek, hsource, hversion, hcopy, rfl⟩ := duplicate_spec hw
  obtain ⟨-, hfind, -, -⟩ := activeDocument_spec hsource
  have hformat := h.supported source (Table.find?_eq_some.mp hfind).1
  obtain ⟨hv, -⟩ := Table.find?_eq_some.mp hversion
  obtain ⟨_, _, _, _, _, _, hplain⟩ := h.versionOf version hv
  rw [copyVersionObject_plain hplain, h.stored version hv] at hcopy
  cases hcopy
  let d : StoredDocument :=
    { source with
      id := id, ownerId := userId, currentVersion := 1, fileSizeBytes := some source.size
      name := nextCopyName source.name ((w.db.documents.rows.filter fun d =>
        d.ownerId = userId && !d.isDeleted && d.folderId = source.folderId).map (·.name))
      mimeType := some (orDefault source.mimeType "application/pdf")
      originalFormat := some source.format, thumbnailPath := none, isDeleted := false
      deletedAt := none, quotaTenantId := none }
  have hcopied := format_eq (d := d) rfl hformat
  exact h.newDocument (d := d)
    (v := { version with
      documentId := id, versionNumber := 1, filePath := originalDocumentKey userId id 1 source.format
      createdBy := userId, encryptionKey := none, isEncrypted := false })
    fresh rfl (hcopied ▸ hformat) rfl rfl rfl (by rw [recordedKey, if_pos rfl, hcopied]) rfl

/-- Every request but an account erasure. -/
def keepsPrefixes (_ : World) : Request → Prop
  | .erase _ => False
  | _ => True

instance (w : World) (r : Request) : Decidable (keepsPrefixes w r) := by
  cases r <;> unfold keepsPrefixes <;> infer_instance

theorem handle_filesStored {services : Services} {w w' : World} {r : Request} (h : FilesStored w)
    (hr : keepsPrefixes w r) (hw : handle services increment w r = some w') : FilesStored w' := by
  cases r with
  | saveDocument => exact saveDocument_filesStored h hw
  | duplicate => exact duplicate_filesStored h hw
  | createVersion userId documentId data editGrant =>
    obtain ⟨d, pageCount, hd, rfl⟩ := createVersion_spec hw
    exact h.saveVersion hd data pageCount userId
  | restoreOriginal userId documentId =>
    obtain rfl | ⟨d, original, pageCount, hd, rfl⟩ := restoreOriginal_spec hw
    · exact h
    · exact h.saveVersion hd original pageCount userId
  | delete userId documentId permanent now =>
    simp only [handle, deleteStoredDocument, Option.bind_eq_bind, Option.bind_eq_some_iff] at hw
    obtain ⟨d, hd, hw⟩ := hw
    obtain ⟨-, hfind, -⟩ := find?_filter hd
    split at hw
    · exact hardDelete_filesStored h (Table.find?_eq_some.mp hfind).1 hw
    · obtain ⟨db, htrash, rfl⟩ := Option.map_eq_some_iff.mp hw
      exact h.sameFiles (trashDocument_sameFiles hfind htrash)
  | adminDelete documentId permanent now =>
    simp only [handle, adminDeleteDocument, Option.bind_eq_bind, Option.bind_eq_some_iff] at hw
    obtain ⟨d, hd, hw⟩ := hw
    have hrow := (Table.find?_eq_some.mp hd).1
    split at hw
    · exact hardDelete_filesStored h hrow hw
    · obtain ⟨db, htrash, rfl⟩ := Option.map_eq_some_iff.mp hw
      exact h.sameFiles (trashDocument_sameFiles (Table.find?_of_mem hrow) htrash)
  | restore userId documentId limits =>
    simp only [handle, restoreStoredDocument, Option.bind_eq_bind, Option.bind_eq_some_iff,
      Option.map_eq_some_iff] at hw
    obtain ⟨d, hd, db, hrestore, rfl⟩ := hw
    exact h.sameFiles (restoreDocument_sameFiles (find?_filter hd).2.1 hrestore)
  | adminRestore documentId =>
    simp only [handle, adminRestoreDocument, Option.bind_eq_bind, Option.bind_eq_some_iff,
      Option.map_eq_some_iff] at hw
    obtain ⟨d, hd, db, hrestore, rfl⟩ := hw
    exact h.sameFiles (restoreDocument_sameFiles (find?_filter hd).2.1 hrestore)
  | thumbnail => exact thumbnail_filesStored h hw
  | purge => exact purgeTrashedDocuments_filesStored h hw
  | createFolder => exact h.sameFiles (createFolder_sameFiles hw)
  | moveFolder => exact h.sameFiles (moveFolder_sameFiles hw)
  | moveDocument => exact h.sameFiles (moveDocument_sameFiles hw)
  | deleteFolder => exact h.sameFiles (deleteFolder_sameFiles hw)
  | erase userId => exact hr.elim
  | getOrCreateQuota userId =>
    cases hw
    refine h.sameFiles ⟨?_, ?_, rfl, fun _ hid => hid⟩ <;>
      (simp only [World.withDb, Db.getOrCreateQuota]; split <;> rfl)
  | createTenant tenant =>
    obtain ⟨db, hdb, rfl⟩ := Option.map_eq_some_iff.mp hw
    obtain ⟨tenants, -, rfl⟩ := Option.map_eq_some_iff.mp hdb
    exact h.sameFiles ⟨rfl, rfl, rfl, fun _ hid => hid⟩
  | setUserPlan | setTenantPlan | setMembers | setPlans =>
    cases hw
    exact h.sameFiles ⟨rfl, rfl, rfl, fun _ hid => hid⟩

theorem filesStored_empty : FilesStored World.empty := by
  constructor <;> exact fun _ h => (List.not_mem_nil h).elim

/-- Every version has its object in every state that is reached without an account erasure. -/
theorem reachable_filesStored {services : Services} {w : World}
    (h : Runs.Reaches (handle services increment) keepsPrefixes World.empty w) : FilesStored w :=
  h.invariant (fun _ _ _ hfiles hr step => handle_filesStored hfiles hr step) filesStored_empty

/-! ## What the invariant says of versions -/

/-- Every version has its object, with the bytes it was saved with, and the versions of a
document are numbered from 1 to its current one, each once. -/
structure VersionsStored (w : World) : Prop where
  stored : ∀ v ∈ w.db.versions.rows, w.objects v.filePath = some v.content
  numbered : ∀ v ∈ w.db.versions.rows, ∃ d ∈ w.db.documents.rows, d.id = v.documentId ∧
    1 ≤ v.versionNumber ∧ v.versionNumber ≤ d.currentVersion
  complete : ∀ d ∈ w.db.documents.rows, 1 ≤ d.currentVersion ∧
    ∀ n, 1 ≤ n → n ≤ d.currentVersion →
      ∃ v ∈ w.db.versions.rows, v.documentId = d.id ∧ v.versionNumber = n
  unique : ∀ v ∈ w.db.versions.rows, ∀ v' ∈ w.db.versions.rows,
    v.documentId = v'.documentId → v.versionNumber = v'.versionNumber → v = v'

theorem FilesStored.versionsStored {w : World} (h : FilesStored w) : VersionsStored w := by
  refine ⟨h.stored, fun v hv => ?_, fun d hd => ⟨(h.complete d hd).1, fun n h1 hn => ?_⟩, ?_⟩
  · obtain ⟨d, hd, hid, h1, hn, -⟩ := h.versionOf v hv
    exact ⟨d, hd, hid, h1, hn⟩
  · obtain ⟨v, hv, hid, hnumber, -⟩ := h.version hd h1 hn
    exact ⟨v, hv, hid, hnumber⟩
  · intro v hv v' hv' hid hnumber
    exact w.db.versions.eq_of_key_eq hv hv' (Prod.ext hid hnumber)

end GigaPdf
