import GigaPdf.Storage.Frames
import GigaPdf.Storage.QuotaRuns

/-!
# Whose documents a folder holds

Every endpoint but the upload looks a folder up among the user's own. While uploads name
the user's own folders too, a folder holds its owner's documents and sub-folders only, and
deleting it touches nobody else's documents.
-/

namespace GigaPdf

/-- The user has a folder of this id. -/
def Db.OwnsFolder (db : Db) (userId : String) (id : Uuid) : Prop :=
  ∃ folder ∈ db.folders.rows, folder.id = id ∧ folder.ownerId = userId

structure FolderOwners (db : Db) : Prop where
  documents : ∀ d ∈ db.documents.rows, ∀ f, d.folderId = some f → db.OwnsFolder d.ownerId f
  parents : ∀ folder ∈ db.folders.rows, ∀ p, folder.parentId = some p →
    db.OwnsFolder folder.ownerId p

/-- Some ids name folders of one user only. -/
def Db.OwnedBy (db : Db) (userId : String) (ids : List Uuid) : Prop :=
  ∀ folder ∈ db.folders.rows, folder.id ∈ ids → folder.ownerId = userId

theorem Db.OwnsFolder.ownedBy {db : Db} {userId : String} {id : Uuid}
    (h : db.OwnsFolder userId id) : db.OwnedBy userId [id] := by
  obtain ⟨own, hown, rfl, rfl⟩ := h
  intro folder hfolder hid
  rw [db.folders.eq_of_key_eq hfolder hown (List.mem_singleton.mp hid)]

theorem ownedFolder_owns {db : Db} {id : Uuid} {userId : String} {folder : Folder}
    (h : db.ownedFolder id userId = some folder) :
    folder ∈ db.folders.rows ∧ folder.id = id ∧ folder.ownerId = userId := by
  obtain ⟨hfind, howner⟩ := Option.filter_eq_some_iff.mp h
  obtain ⟨hrow, hid⟩ := Table.find?_eq_some.mp hfind
  exact ⟨hrow, hid, by simpa using howner⟩

theorem targetFolder_owns {db : Db} {id : Option Uuid} {userId : String} {folder : Option Folder}
    (h : db.targetFolder id userId = some folder) : ∀ f, id = some f → db.OwnsFolder userId f := by
  rintro f rfl
  obtain ⟨own, hown, -⟩ := Option.map_eq_some_iff.mp h
  obtain ⟨hrow, hid, howner⟩ := ownedFolder_owns hown
  exact ⟨own, hrow, hid, howner⟩

/-! ## Sub-trees -/

theorem mem_childFolders {folders : List Folder} {parents : List Uuid} {id : Uuid} :
    id ∈ childFolders folders parents ↔
      ∃ folder ∈ folders, folder.id = id ∧ ∃ p, folder.parentId = some p ∧ p ∈ parents := by
  simp only [childFolders, List.mem_map, List.mem_filter, Option.any_eq_true, decide_eq_true_eq]
  constructor
  · rintro ⟨folder, ⟨hfolder, p, hp, hmem⟩, rfl⟩
    exact ⟨folder, hfolder, rfl, p, hp, hmem⟩
  · rintro ⟨folder, hfolder, rfl, p, hp, hmem⟩
    exact ⟨folder, ⟨hfolder, p, hp, hmem⟩, rfl⟩

theorem FolderOwners.childFolders_ownedBy {db : Db} (h : FolderOwners db) {userId : String}
    {ids : List Uuid} (owned : db.OwnedBy userId ids) :
    db.OwnedBy userId (childFolders db.folders.rows ids) := by
  intro folder hfolder hchild
  obtain ⟨child, hmem, hid, p, hparent, hp⟩ := mem_childFolders.mp hchild
  have same : child = folder := db.folders.eq_of_key_eq hmem hfolder hid
  subst same
  obtain ⟨parent, hrow, rfl, howner⟩ := h.parents child hmem p hparent
  exact howner.symm.trans (owned parent hrow hp)

theorem ownedBy_append {db : Db} {userId : String} {ids ids' : List Uuid}
    (h : db.OwnedBy userId ids) (h' : db.OwnedBy userId ids') : db.OwnedBy userId (ids ++ ids') := by
  intro folder hfolder hmem
  rcases List.mem_append.mp hmem with hmem | hmem
  · exact h folder hfolder hmem
  · exact h' folder hfolder hmem

/-- The sub-tree of a user's folder is the user's. -/
theorem FolderOwners.subtree_ownedBy {db : Db} (h : FolderOwners db) {userId : String}
    {folderId : Uuid} {subtree : List Uuid}
    (hsubtree : db.lockFolderSubtree folderId userId = some subtree) :
    db.OwnedBy userId [folderId] ∧ db.OwnedBy userId subtree := by
  obtain ⟨folder, hfolder, hlevels⟩ := Option.bind_eq_some_iff.mp hsubtree
  obtain ⟨hrow, hid, howner⟩ := ownedFolder_owns hfolder
  have root : db.OwnedBy userId [folder.id] := Db.OwnsFolder.ownedBy ⟨folder, hrow, rfl, howner⟩
  refine ⟨hid ▸ root, ?_⟩
  exact Closure.levels_invariant _ (P := db.OwnedBy userId) (fun _ => h.childFolders_ownedBy)
    (fun _ _ => ownedBy_append) root hlevels

theorem FolderOwners.cascade_ownedBy {db : Db} (h : FolderOwners db) {userId : String}
    {ids : List Uuid} (owned : db.OwnedBy userId ids) :
    db.OwnedBy userId (cascadeFolders db.folders.rows ids) := by
  refine Closure.grow_invariant _ (fun ids owned => ?_) owned
  have children := h.childFolders_ownedBy owned
  exact ownedBy_append owned fun folder hfolder hmem =>
    children folder hfolder (List.mem_filter.mp hmem).1

/-- A folder below a deleted one is deleted. -/
theorem cascadeFolders_closed (folders : List Folder) (ids : List Uuid) {folder : Folder}
    (hfolder : folder ∈ folders) {p : Uuid} (hparent : folder.parentId = some p)
    (hp : p ∈ cascadeFolders folders ids) : folder.id ∈ cascadeFolders folders ids := by
  have inside : ∀ parents, ∀ id ∈ childFolders folders parents, id ∈ folders.map (·.id) := by
    intro parents id hid
    obtain ⟨child, hchild, rfl, -⟩ := mem_childFolders.mp hid
    exact List.mem_map_of_mem hchild
  refine Closure.grow_closed (childFolders folders) inside ?_ folder.id ?_
  · have := List.length_filter_le (· ∉ ids) (folders.map (·.id))
    rwa [List.length_map] at this
  · exact mem_childFolders.mpr ⟨folder, hfolder, rfl, p, hparent, hp⟩

theorem FolderOwners.deleteFolders {db : Db} (h : FolderOwners db) (ids : List Uuid) :
    FolderOwners (db.deleteFolders ids) := by
  have kept : ∀ {userId f}, db.OwnsFolder userId f → f ∉ cascadeFolders db.folders.rows ids →
      (db.deleteFolders ids).OwnsFolder userId f := by
    rintro userId f ⟨folder, hfolder, rfl, howner⟩ hstays
    exact ⟨folder, by simpa [Db.deleteFolders] using ⟨hfolder, hstays⟩, rfl, howner⟩
  constructor
  · intro d hd f hf
    obtain ⟨row, hrow, rfl⟩ := List.mem_map.mp hd
    by_cases gone : row.folderId.any (· ∈ cascadeFolders db.folders.rows ids) = true
    · simp [gone] at hf
    · simp only [gone, Bool.false_eq_true, if_false] at hf ⊢
      refine kept (h.documents row hrow f hf) fun hmem => gone ?_
      simpa [hf] using hmem
  · intro folder hfolder p hparent
    obtain ⟨hfolder, hstays⟩ := Table.mem_deleteWhere.mp hfolder
    refine kept (h.parents folder hfolder p hparent) fun hmem => ?_
    have := cascadeFolders_closed db.folders.rows ids hfolder hparent hmem
    simp [this] at hstays

/-- Deleting a user's folders leaves the documents of others as they are. -/
theorem FolderOwners.deleteFolders_keeps {db : Db} (h : FolderOwners db) {userId : String}
    {ids : List Uuid} (owned : db.OwnedBy userId ids) {d : StoredDocument}
    (hd : d ∈ db.documents.rows) (other : d.ownerId ≠ userId) :
    d ∈ (db.deleteFolders ids).documents.rows := by
  refine List.mem_map.mpr ⟨d, hd, if_neg ?_⟩
  intro gone
  obtain ⟨f, hf, hmem⟩ := Option.any_eq_true _ _ |>.mp gone
  obtain ⟨folder, hfolder, rfl, howner⟩ := h.documents d hd f hf
  have := h.cascade_ownedBy owned folder hfolder (by simpa using hmem)
  exact other (howner.symm.trans this)

/-! ## Requests -/

/-- What the invariant depends on in a document's row. -/
def placement (d : StoredDocument) : String × Option Uuid := (d.ownerId, d.folderId)

theorem FolderOwners.placed {db db' : Db} (h : FolderOwners db) (folders : db'.folders = db.folders)
    (placed : ∀ d ∈ db'.documents.rows, (∃ row ∈ db.documents.rows, placement row = placement d) ∨
      ∀ f, d.folderId = some f → db.OwnsFolder d.ownerId f) : FolderOwners db' := by
  have same : db'.OwnsFolder = db.OwnsFolder := by
    funext userId id
    simp only [Db.OwnsFolder, folders]
  constructor
  · intro d hd f hf
    rw [same]
    rcases placed d hd with ⟨row, hrow, e⟩ | own
    · obtain ⟨howner, hfolder⟩ := Prod.mk.inj e
      have := h.documents row hrow f (hfolder.trans hf)
      rwa [howner] at this
    · exact own f hf
  · rw [folders, same]
    exact h.parents

theorem FolderOwners.samePlacements {db db' : Db} (h : FolderOwners db)
    (folders : db'.folders = db.folders)
    (placements : db'.documents.rows.map placement = db.documents.rows.map placement) :
    FolderOwners db' := by
  refine h.placed folders fun d hd => .inl ?_
  have : placement d ∈ db.documents.rows.map placement := placements ▸ List.mem_map_of_mem hd
  exact List.mem_map.mp this

theorem FolderOwners.fewer {db db' : Db} (h : FolderOwners db) (folders : db'.folders = db.folders)
    (fewer : ∀ d ∈ db'.documents.rows, d ∈ db.documents.rows) : FolderOwners db' :=
  h.placed folders fun d hd => .inl ⟨d, fewer d hd, rfl⟩

variable {increment : Increment}

theorem FolderOwners.addDocument {db db' : Db} (h : FolderOwners db) {d : StoredDocument}
    {v : DocumentVersion} {limits : EffectiveLimits}
    (own : ∀ f, d.folderId = some f → db.OwnsFolder d.ownerId f)
    (hadd : db.addDocument increment d v limits = some db') : FolderOwners db' := by
  obtain ⟨⟨t, hdocs⟩, -, hfolders, -⟩ := addDocument_spec hadd
  refine h.placed hfolders fun x hx => ?_
  rw [hdocs, List.mem_cons] at hx
  rcases hx with rfl | hx
  · exact .inr own
  · exact .inl ⟨x, hx, rfl⟩

theorem FolderOwners.rowsForUploadedObject {w : World} (h : FolderOwners w.db) {key : Key}
    {rows : Db → Option Db} (hrows : ∀ db, rows w.db = some db → FolderOwners db) :
    FolderOwners (w.rowsForUploadedObject key rows).db := by
  unfold World.rowsForUploadedObject
  split
  · rename_i db hdb
    exact hrows db hdb
  · exact h

theorem FolderOwners.saveVersion {w : World} (h : FolderOwners w.db) {d : StoredDocument}
    (hd : w.db.documents.find? d.id = some d) (data : Bytes) (pageCount : Nat)
    (createdBy : String) :
    FolderOwners (w.saveVersion increment d data pageCount createdBy).db := by
  unfold World.saveVersion
  refine FolderOwners.rowsForUploadedObject (w := w.uploadFile _ data) h fun db hadd => ?_
  obtain ⟨hdocs, -, hfolders⟩ := addVersion_spec hadd
  refine h.samePlacements hfolders ?_
  rw [hdocs]
  exact flush_map
    (d := { d with
      currentVersion := d.currentVersion + 1, pageCount := pageCount
      fileSizeBytes := some data.length }) hd placement rfl

theorem FolderOwners.trashDocument {db db' : Db} (h : FolderOwners db) {d : StoredDocument}
    {now : Time} (hd : db.documents.find? d.id = some d)
    (htrash : db.trashDocument increment d now = some db') : FolderOwners db' := by
  have moved := trashDocument_spec htrash
  refine h.samePlacements moved.folders ?_
  rw [moved.documents]
  exact flush_map (d := { d with isDeleted := true, deletedAt := some now }) hd placement rfl

theorem FolderOwners.restoreDocument {db db' : Db} (h : FolderOwners db) {d : StoredDocument}
    {limits : Option EffectiveLimits} (hd : db.documents.find? d.id = some d)
    (hrestore : db.restoreDocument increment d limits = some db') : FolderOwners db' := by
  obtain ⟨t, moved⟩ := restoreDocument_spec hrestore
  refine h.samePlacements moved.folders ?_
  rw [moved.documents]
  exact flush_map
    (d := { d with isDeleted := false, deletedAt := none, quotaTenantId := t }) hd placement rfl

theorem FolderOwners.deleteDocuments {db : Db} (h : FolderOwners db) (ids : List Uuid) :
    FolderOwners (db.deleteDocuments ids) :=
  h.fewer rfl fun _ hd => (Table.mem_deleteWhere.mp hd).1

theorem FolderOwners.hardDelete {w w' : World} (h : FolderOwners w.db) {d : StoredDocument}
    (hdelete : w.hardDelete increment d = some w') : FolderOwners w'.db := by
  obtain ⟨⟨db, d'⟩, hfree, rfl⟩ := Option.map_eq_some_iff.mp hdelete
  obtain ⟨moved, -⟩ := freeDocument_spec hfree
  have freed : FolderOwners db := h.fewer moved.folders fun _ hd => moved.documents ▸ hd
  exact freed.deleteDocuments _

theorem eraseTenancy_placements (db : Db) (userId : String) (tenantIds : List Uuid) :
    (db.eraseTenancy increment userId tenantIds).folders = db.folders ∧
      (db.eraseTenancy increment userId tenantIds).documents.rows.map placement =
        db.documents.rows.map placement := by
  have moved (db : Db) (charged : List (String × Usage)) :
      CountersMoved db
        (charged.foldl (fun db e => db.incrementUserStorage increment e.1 e.2.1 e.2.2) db) :=
    chargeOwners_frame charged db
  have handed : ∀ db : Db, (db.handOverTenantDocuments increment tenantIds).folders = db.folders ∧
      (db.handOverTenantDocuments increment tenantIds).documents.rows.map placement =
        db.documents.rows.map placement := by
    intro db
    refine ⟨(moved db _).folders, ?_⟩
    refine (update_map _ _ _ placement (by intro; rfl)).trans ?_
    rw [(moved db _).documents]
  unfold Db.eraseTenancy
  simp only
  split <;> exact handed _

theorem FolderOwners.erase {w w' : World} (h : FolderOwners w.db) {userId : String}
    (herase : erase increment w userId = some w') : FolderOwners w'.db := by
  simp only [GigaPdf.erase, Option.bind_eq_bind, Option.bind_eq_some_iff,
    Option.ite_none_left_eq_some, Option.some.injEq] at herase
  obtain ⟨-, tenantIds, -, -, db, hrows, rfl⟩ := herase
  simp only [Db.eraseRows, Option.bind_eq_bind, Option.bind_eq_some_iff,
    Option.some.injEq] at hrows
  obtain ⟨released, hrelease, rfl⟩ := hrows
  have moved := releaseDocuments_frame hrelease
  have freed : FolderOwners released := h.fewer moved.folders fun _ hd => moved.documents ▸ hd
  have gone := (freed.deleteDocuments
    ((w.db.documents.rows.filter fun d => d.ownerId = userId).map (·.id))).deleteFolders
      ((released.folders.rows.filter fun f => f.ownerId = userId).map (·.id))
  obtain ⟨folders, placements⟩ := @eraseTenancy_placements increment
    ((released.deleteDocuments _).deleteFolders _) userId tenantIds
  exact gone.samePlacements folders placements

theorem FolderOwners.createFolder {w w' : World} (h : FolderOwners w.db) {userId name : String}
    {parentId : Option Uuid} {id : Uuid}
    (hcreate : createFolder w userId name parentId id = some w') : FolderOwners w'.db := by
  simp only [GigaPdf.createFolder, Option.bind_eq_bind, Option.bind_eq_some_iff,
    Option.some.injEq] at hcreate
  obtain ⟨parent, hparent, issued, hissued, folders, hinsert, rfl⟩ := hcreate
  obtain ⟨-, rfl⟩ := generateUuid_spec hissued
  have mem (x : Folder) := Table.mem_insert? (x := x) hinsert
  have kept : ∀ {u f}, w.db.OwnsFolder u f → ({ w.db with folders := folders } : Db).OwnsFolder u f := by
    rintro u f ⟨folder, hfolder, own⟩
    exact ⟨folder, (mem folder).mpr (.inr hfolder), own⟩
  constructor
  · intro d hd f hf
    exact kept (h.documents d hd f hf)
  · intro folder hfolder p hp
    rcases (mem folder).mp hfolder with rfl | hfolder
    · exact kept (targetFolder_owns hparent p hp)
    · exact kept (h.parents folder hfolder p hp)

/-- Folders are rewritten in place, and a new parent is the owner's. -/
theorem FolderOwners.updateFolders {db : Db} (h : FolderOwners db) (p : Folder → Bool)
    (change : Folder → Folder) (keeps : ∀ x, (change x).id = x.id)
    (owner : ∀ x, (change x).ownerId = x.ownerId)
    (parents : ∀ x ∈ db.folders.rows, p x = true → ∀ f, (change x).parentId = some f →
      db.OwnsFolder x.ownerId f) :
    FolderOwners { db with folders := db.folders.updateWhere p change keeps } ∧
      ∀ userId f, db.OwnsFolder userId f →
        ({ db with folders := db.folders.updateWhere p change keeps } : Db).OwnsFolder userId f := by
  have kept : ∀ userId f, db.OwnsFolder userId f →
      ({ db with folders := db.folders.updateWhere p change keeps } : Db).OwnsFolder userId f := by
    rintro userId f ⟨folder, hfolder, hid, howner⟩
    refine ⟨_, List.mem_map_of_mem hfolder, ?_⟩
    split
    · exact ⟨(keeps folder).trans hid, (owner folder).trans howner⟩
    · exact ⟨hid, howner⟩
  refine ⟨⟨fun d hd f hf => kept _ _ (h.documents d hd f hf), fun x hx f hf => ?_⟩, kept⟩
  obtain ⟨row, hrow, rfl⟩ := List.mem_map.mp hx
  apply kept
  by_cases hp : p row = true
  · rw [if_pos hp] at hf ⊢
    rw [owner]
    exact parents row hrow hp f hf
  · rw [if_neg hp] at hf ⊢
    exact h.parents row hrow f hf

theorem FolderOwners.moveFolder {w w' : World} (h : FolderOwners w.db) {userId : String}
    {folderId : Uuid} {parentId : Option Uuid}
    (hmove : moveFolder w userId folderId parentId = some w') : FolderOwners w'.db := by
  simp only [GigaPdf.moveFolder, Option.bind_eq_bind, Option.bind_eq_some_iff,
    Option.ite_none_left_eq_some, Option.some.injEq] at hmove
  obtain ⟨-, folder, hfolder, parent, hparent, -, rfl⟩ := hmove
  obtain ⟨hmoved, rfl, howner⟩ := ownedFolder_owns hfolder
  let below := childPath (some folder)
  let newPath := childPath parent
  obtain ⟨paths, kept⟩ := h.updateFolders
    (fun f => f.ownerId = userId && hasPrefix f.path below)
    (fun f =>
      { f with path := replaceStart f.path below (newPath ++ folder.id.text ++ "/") })
    (fun _ => rfl) (fun _ => rfl) fun x hx _ f hf => h.parents x hx f hf
  refine (paths.updateFolders (fun f => f.id = folder.id)
    (fun f => { f with parentId := parentId, path := childPath parent })
    (fun _ => rfl) (fun _ => rfl) fun x hx hid f hf => ?_).1
  obtain ⟨row, hrow, rfl⟩ := List.mem_map.mp hx
  have same : row = folder := by
    refine w.db.folders.eq_of_key_eq hrow hmoved ?_
    have := of_decide_eq_true hid
    split at this <;> exact this
  subst same
  have own := kept userId f (targetFolder_owns hparent f hf)
  split <;> rwa [howner]

theorem FolderOwners.deleteFolder {w w' : World} (h : FolderOwners w.db) {userId : String}
    {folderId : Uuid} {cascade : Bool} {now : Time}
    (hdelete : deleteFolder increment w userId folderId cascade now = some w') :
    FolderOwners w'.db ∧
      ∀ d ∈ w.db.documents.rows, d.ownerId ≠ userId → d ∈ w'.db.documents.rows := by
  simp only [GigaPdf.deleteFolder, Option.bind_eq_bind, Option.bind_eq_some_iff,
    Option.ite_none_left_eq_some, Option.some.injEq] at hdelete
  obtain ⟨subtree, hsubtree, -, db, hrelease, rfl⟩ := hdelete
  obtain ⟨root, below⟩ := h.subtree_ownedBy hsubtree
  have moved := releaseDocuments_frame hrelease
  have trashed : FolderOwners db := by
    refine h.samePlacements moved.folders ?_
    rw [moved.documents]
    exact update_map w.db.documents.rows _ _ placement (by intro; rfl)
  refine ⟨trashed.deleteFolders [folderId], fun d hd other => ?_⟩
  refine @FolderOwners.deleteFolders_keeps _ trashed userId _ ?_ _ ?_ other
  · intro folder hfolder hmem
    rw [moved.folders] at hfolder
    exact root folder hfolder hmem
  · rw [moved.documents]
    refine List.mem_map.mpr ⟨d, hd, if_neg fun inside => ?_⟩
    obtain ⟨f, hf, hmem⟩ := Option.any_eq_true _ _ |>.mp (Bool.and_eq_true_iff.mp inside).1
    obtain ⟨folder, hfolder, rfl, howner⟩ := h.documents d hd f hf
    exact other (howner.symm.trans (below folder hfolder (by simpa using hmem)))

/-! ## Runs -/

/-- An upload names a folder of its user, or none; the other requests check it themselves. -/
def ownFolders (w : World) : Request → Prop
  | .saveDocument userId _ _ (some f) _ _ =>
    ∀ folder ∈ w.db.folders.rows, folder.id = f → folder.ownerId = userId
  | _ => True

instance (w : World) (r : Request) : Decidable (ownFolders w r) := by
  unfold ownFolders
  split <;> infer_instance

theorem saveDocument_folderOwners {services : Services} {w w' : World} (h : FolderOwners w.db)
    {userId name : String} {file : UploadFile} {folderId : Option Uuid} {limits : EffectiveLimits}
    {id : Uuid} (own : ownFolders w (.saveDocument userId name file folderId limits id))
    (hw : saveDocument services increment w userId name file folderId limits id = some w') :
    FolderOwners w'.db := by
  obtain ⟨-, pageCount, rfl⟩ := saveDocument_spec hw
  refine FolderOwners.rowsForUploadedObject (w := World.uploadFile ⟨w.db, w.objects, id :: w.issued⟩ _ _)
    h fun db hadd => ?_
  obtain ⟨-, -, -, exists_folder⟩ := addDocument_spec hadd
  refine h.addDocument ?_ hadd
  rintro f rfl
  obtain ⟨folder, hfolder⟩ := Option.isSome_iff_exists.mp exists_folder
  obtain ⟨hrow, hid⟩ := Table.find?_eq_some.mp hfolder
  exact ⟨folder, hrow, hid, own folder hrow hid⟩

theorem duplicate_folderOwners {services : Services} {w w' : World} (h : FolderOwners w.db)
    {userId : String} {documentId : Uuid} {limits : EffectiveLimits} {id : Uuid}
    (hw : duplicateStoredDocument services increment w userId documentId limits id = some w') :
    FolderOwners w'.db := by
  obtain ⟨-, source, version, data, dek, hsource, -, -, rfl⟩ := duplicate_spec hw
  obtain ⟨-, hfind, howner, -⟩ := activeDocument_spec hsource
  refine FolderOwners.rowsForUploadedObject (w := World.uploadFile ⟨w.db, w.objects, id :: w.issued⟩ _ _)
    h fun db hadd => ?_
  refine h.addDocument (fun f hf => ?_) hadd
  have := h.documents source (Table.find?_eq_some.mp hfind).1 f hf
  rwa [howner] at this

theorem moveDocument_folderOwners {w w' : World} (h : FolderOwners w.db) {userId : String}
    {documentId : Uuid} {folderId : Option Uuid}
    (hw : moveDocument w userId documentId folderId = some w') : FolderOwners w'.db := by
  simp only [moveDocument, Option.bind_eq_bind, Option.bind_eq_some_iff, Option.some.injEq] at hw
  obtain ⟨d, hd, target, htarget, rfl⟩ := hw
  obtain ⟨-, hfind, howner, -⟩ := activeDocument_spec hd
  refine h.placed rfl fun x hx => ?_
  rcases (mem_flush_iff (d := { d with folderId := folderId }) hfind).mp hx with rfl | ⟨hx, -⟩
  · right
    intro f hf
    rw [howner]
    exact targetFolder_owns htarget f hf
  · exact .inl ⟨x, hx, rfl⟩

theorem handle_folderOwners {services : Services} {w w' : World} {r : Request}
    (h : FolderOwners w.db) (hr : ownFolders w r) (hw : handle services increment w r = some w') :
    FolderOwners w'.db := by
  cases r with
  | saveDocument => exact saveDocument_folderOwners h hr hw
  | duplicate => exact duplicate_folderOwners h hw
  | createVersion userId documentId data editGrant =>
    obtain ⟨d, pageCount, hd, rfl⟩ := createVersion_spec hw
    exact h.saveVersion hd data pageCount userId
  | restoreOriginal userId documentId =>
    obtain rfl | ⟨d, original, pageCount, hd, rfl⟩ := restoreOriginal_spec hw
    · exact h
    · exact h.saveVersion hd original pageCount userId
  | delete userId documentId permanent now =>
    simp only [handle, deleteStoredDocument, Option.bind_eq_bind, Option.bind_eq_some_iff] at hw
    obtain ⟨d, hd, hw⟩ := hw
    split at hw
    · exact h.hardDelete hw
    · obtain ⟨db, htrash, rfl⟩ := Option.map_eq_some_iff.mp hw
      exact h.trashDocument (find?_filter hd).2.1 htrash
  | adminDelete documentId permanent now =>
    simp only [handle, adminDeleteDocument, Option.bind_eq_bind, Option.bind_eq_some_iff] at hw
    obtain ⟨d, hd, hw⟩ := hw
    split at hw
    · exact h.hardDelete hw
    · obtain ⟨db, htrash, rfl⟩ := Option.map_eq_some_iff.mp hw
      exact h.trashDocument (Table.find?_of_mem (Table.find?_eq_some.mp hd).1) htrash
  | restore userId documentId limits =>
    simp only [handle, restoreStoredDocument, Option.bind_eq_bind, Option.bind_eq_some_iff,
      Option.map_eq_some_iff] at hw
    obtain ⟨d, hd, db, hrestore, rfl⟩ := hw
    exact h.restoreDocument (find?_filter hd).2.1 hrestore
  | adminRestore documentId =>
    simp only [handle, adminRestoreDocument, Option.bind_eq_bind, Option.bind_eq_some_iff,
      Option.map_eq_some_iff] at hw
    obtain ⟨d, hd, db, hrestore, rfl⟩ := hw
    exact h.restoreDocument (find?_filter hd).2.1 hrestore
  | thumbnail userId documentId image =>
    simp only [handle, uploadDocumentThumbnail, Option.bind_eq_bind, Option.bind_eq_some_iff,
      Option.ite_none_left_eq_some, Option.some.injEq] at hw
    obtain ⟨-, ⟨extension, mime⟩, -, d, hd, rfl⟩ := hw
    refine h.samePlacements rfl (flush_map
      (d := { d with thumbnailPath := some (getThumbnailKey userId documentId extension) })
      (activeDocument_spec hd).2.1 placement rfl)
  | purge cutoff ids =>
    obtain ⟨documents, -, rfl⟩ := Option.map_eq_some_iff.mp hw
    exact h.deleteDocuments _
  | createFolder => exact h.createFolder hw
  | moveFolder => exact h.moveFolder hw
  | moveDocument => exact moveDocument_folderOwners h hw
  | deleteFolder => exact (h.deleteFolder hw).1
  | erase => exact h.erase hw
  | getOrCreateQuota userId =>
    cases hw
    refine h.samePlacements ?_ ?_ <;>
      (simp only [World.withDb, Db.getOrCreateQuota]; split <;> rfl)
  | createTenant tenant =>
    obtain ⟨db, hdb, rfl⟩ := Option.map_eq_some_iff.mp hw
    obtain ⟨tenants, -, rfl⟩ := Option.map_eq_some_iff.mp hdb
    exact h.samePlacements rfl rfl
  | setUserPlan | setTenantPlan | setMembers | setPlans =>
    cases hw
    exact h.samePlacements rfl rfl

theorem folderOwners_empty : FolderOwners World.empty.db := by
  constructor <;> exact fun _ h => (List.not_mem_nil h).elim

/-- While uploads name their user's own folders, every document is in a folder of its owner,
and no folder deletion changes the row of somebody else's document. -/
theorem folders_hold_own_documents (services : Services) {w : World}
    (h : Runs.Reaches (handle services clampedIncrement) ownFolders World.empty w) :
    (∀ d ∈ w.db.documents.rows, ∀ f, d.folderId = some f →
      ∃ folder ∈ w.db.folders.rows, folder.id = f ∧ folder.ownerId = d.ownerId) ∧
    ∀ userId folderId cascade now w',
      deleteFolder clampedIncrement w userId folderId cascade now = some w' →
      ∀ d ∈ w.db.documents.rows, d.ownerId ≠ userId → d ∈ w'.db.documents.rows := by
  have owners : FolderOwners w.db := by
    refine h.invariant (P := fun w => FolderOwners w.db) ?_ folderOwners_empty
    intro w r w' owners own step
    exact handle_folderOwners owners own step
  refine ⟨owners.documents, fun userId folderId cascade now w' hw => ?_⟩
  exact (owners.deleteFolder hw).2

/-- Ana deletes her folder with what is in it; Bob's document next to it stays. -/
theorem folders_hold_own_documents_cascade : ∃ w w',
    deleteFolder clampedIncrement w "ana" (uuid "folder") true 7 = some w' ∧
      (∃ d ∈ w'.db.documents.rows, d.ownerId = "ana" ∧ d.isDeleted = true) ∧
      ∃ d ∈ w'.db.documents.rows, d.ownerId = "bob" ∧ d.isDeleted = false := by
  obtain ⟨w, reach, deleted, d, hd, howner, active⟩ := Runs.exists_reaches_of_runAll
    (handle plainServices clampedIncrement) ownFolders World.empty
    [.createFolder "ana" "Papers" none (uuid "folder"),
     .saveDocument "ana" "note" ⟨ascii "%PDF-", some "note.pdf", none⟩ (some (uuid "folder"))
       (freshLimits "ana") (uuid "note"),
     .saveDocument "bob" "bill" ⟨ascii "%PDF-", some "bill.pdf", none⟩ none
       (freshLimits "bob") (uuid "bill")]
    (fun w =>
      (deleteFolder clampedIncrement w "ana" (uuid "folder") true 7).any (fun w' =>
        decide (∃ d ∈ w'.db.documents.rows, d.ownerId = "ana" ∧ d.isDeleted = true)) = true ∧
      ∃ d ∈ w.db.documents.rows, d.ownerId = "bob" ∧ d.isDeleted = false) (by decide)
  obtain ⟨w', hw', trashed⟩ := (Option.any_eq_true _ _).mp deleted
  have stays := (folders_hold_own_documents plainServices reach).2 "ana" (uuid "folder") true 7 w' hw'
    d hd (by rw [howner]; decide)
  exact ⟨w, w', hw', of_decide_eq_true trashed, d, stays, howner, active⟩

/-- Bob uploads into Ana's folder, whose id he sends with the file; Ana deletes the folder,
and Bob's document goes to the trash. -/
theorem upload_into_foreign_folder_trashed : ∃ w w',
    Runs.Reaches (handle plainServices clampedIncrement) Runs.always World.empty w ∧
      (∃ d ∈ w.db.documents.rows, d.ownerId = "bob" ∧ d.isDeleted = false ∧
        d.folderId = some (uuid "folder") ∧
        ∃ folder ∈ w.db.folders.rows, folder.id = uuid "folder" ∧ folder.ownerId = "ana") ∧
      deleteFolder clampedIncrement w "ana" (uuid "folder") true 7 = some w' ∧
      ∃ d ∈ w'.db.documents.rows, d.ownerId = "bob" ∧ d.isDeleted = true ∧ d.folderId = none := by
  obtain ⟨w, reach, foreign, deleted⟩ := Runs.exists_reaches_of_runAll
    (handle plainServices clampedIncrement) Runs.always World.empty
    [.createFolder "ana" "Papers" none (uuid "folder"),
     .saveDocument "bob" "bill" ⟨ascii "%PDF-", some "bill.pdf", none⟩ (some (uuid "folder"))
       (freshLimits "bob") (uuid "bill")]
    (fun w =>
      (∃ d ∈ w.db.documents.rows, d.ownerId = "bob" ∧ d.isDeleted = false ∧
        d.folderId = some (uuid "folder") ∧
        ∃ folder ∈ w.db.folders.rows, folder.id = uuid "folder" ∧ folder.ownerId = "ana") ∧
      (deleteFolder clampedIncrement w "ana" (uuid "folder") true 7).any (fun w' =>
        decide (∃ d ∈ w'.db.documents.rows,
          d.ownerId = "bob" ∧ d.isDeleted = true ∧ d.folderId = none)) = true)
    (by decide)
  obtain ⟨w', hw', trashed⟩ := (Option.any_eq_true _ _).mp deleted
  exact ⟨w, w', reach, foreign, hw', of_decide_eq_true trashed⟩

end GigaPdf
