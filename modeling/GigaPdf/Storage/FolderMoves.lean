import GigaPdf.Storage.Ownership

/-!
# Moving folders

`move_folder` as it reads, selects and writes. The id of the folder is also used as the text that
the request has sent, and PostgreSQL reads several spellings of one id.
-/

namespace GigaPdf

/-- `text.replace(old, new, 1)`. -/
def replaceFirst (old new : List Char) : List Char → List Char
  | [] => if old = [] then new else []
  | c :: rest =>
    if old.isPrefixOf (c :: rest) then new ++ (c :: rest).drop old.length
    else c :: replaceFirst old new rest

/-- The rows as they were read, and the ids as they were sent. -/
structure FolderMove where
  folder : Folder
  parent : Option Folder
  folderId : String
  requestParentId : Option String
deriving DecidableEq

namespace FolderMove

variable (m : FolderMove)

def parentId : Option Uuid := m.parent.map (·.id)

def newPath : String := childPath m.parent

def oldBelow : String := m.folder.path ++ m.folderId ++ "/"

def newBelow : String := m.newPath ++ m.folderId ++ "/"

/-- A row that the session has loaded already is not loaded again. -/
def loaded (f : Folder) : Folder :=
  if f.id = m.folder.id then { m.folder with path := m.newPath }
  else (m.parent.filter fun p => p.id = f.id).getD f

def newDescendantPath (path : String) : String :=
  String.ofList (replaceFirst m.oldBelow.toList m.newBelow.toList path.toList)

/-- What is set to the value that was loaded is not written. -/
def written {α : Type} [DecidableEq α] (loaded new current : α) : α :=
  if new = loaded then current else new

/-- Another spelling of the id that was loaded is another text, which is written. -/
def writtenParentId (current : Option Uuid) : Option Uuid :=
  if m.requestParentId = m.parentId.map (·.text) then
    written m.folder.parentId m.parentId current
  else m.parentId

/-- What the flush makes of a row. -/
def write (descendants : List Folder) (f : Folder) : Folder :=
  if f.id = m.folder.id then
    let path :=
      if descendants.any fun d => d.id = f.id then m.newDescendantPath m.newPath else m.newPath
    { f with
      parentId := m.writtenParentId f.parentId
      path := written m.folder.path path f.path }
  else
    match descendants.find? fun d => d.id = f.id with
    | none => f
    | some d => { f with path := written d.path (m.newDescendantPath d.path) f.path }

theorem write_id (descendants : List Folder) (f : Folder) : (m.write descendants f).id = f.id := by
  unfold write
  split
  · rfl
  · split <;> rfl

end FolderMove

/-- `Folder.path.startswith(…)` among the folders of a user. -/
def Db.foldersBelow (db : Db) (userId below : String) : List Folder :=
  db.folders.rows.filter fun f => f.ownerId = userId && hasPrefix f.path below

def Db.descendantsOf (db : Db) (m : FolderMove) : List Folder :=
  (db.foldersBelow m.folder.ownerId m.oldBelow).map m.loaded

def Db.writeMove (db : Db) (m : FolderMove) (descendants : List Folder) : Db :=
  { db with
    folders := db.folders.updateWhere (fun _ => true) (m.write descendants)
      (m.write_id descendants) }

section
variable (readUuid : String → Option Uuid)

def readParentId : Option String → Option (Option Uuid)
  | none => some none
  -- An empty text is no parent for the path, and no id for the row.
  | some text => if text = "" then none else (readUuid text).map some

/-- The first half of `move_folder`; `none` when it raises. -/
def Db.readMove (db : Db) (userId folderId : String) (parentId : Option String) :
    Option FolderMove := do
  if parentId = some folderId then none
  else
    let id ← readUuid folderId
    let folder ← db.ownedFolder id userId
    let target ← readParentId readUuid parentId
    let parent ← db.targetFolder target userId
    if parent.any fun p => hasPrefix p.path (childPath (some folder)) then none
    else some ⟨folder, parent, folderId, parentId⟩

/-- `move_folder` without interruption. -/
def moveFolderRequest (w : World) (userId folderId : String) (parentId : Option String) :
    Option World :=
  (w.db.readMove readUuid userId folderId parentId).map fun m =>
    { w with db := w.db.writeMove m (w.db.descendantsOf m) }

end

/-! ## The move it means -/

/-- The folders that lie below a folder. -/
def Db.properDescendants (db : Db) (folder : Folder) : List Folder :=
  db.foldersBelow folder.ownerId (childPath (some folder))

section
variable (folder : Folder) (parentId : Option Uuid) (newPath : String)

/-- What a move makes of a row. -/
def movedRow (f : Folder) : Folder :=
  if f.id = folder.id then { f with parentId := parentId, path := newPath }
  else if f.ownerId = folder.ownerId && hasPrefix f.path (childPath (some folder)) then
    { f with
      path := replaceStart f.path (childPath (some folder)) (newPath ++ folder.id.text ++ "/") }
  else f

theorem movedRow_id (f : Folder) : (movedRow folder parentId newPath f).id = f.id := by
  unfold movedRow
  split
  · rfl
  · split <;> rfl

theorem movedRow_ownerId (f : Folder) :
    (movedRow folder parentId newPath f).ownerId = f.ownerId := by
  unfold movedRow
  split
  · rfl
  · split <;> rfl

theorem movedRow_parentId (f : Folder) :
    (movedRow folder parentId newPath f).parentId =
      if f.id = folder.id then parentId else f.parentId := by
  unfold movedRow
  split
  · rfl
  · split <;> rfl

end

def Db.moveRows (db : Db) (folder : Folder) (parentId : Option Uuid) (newPath : String) : Db :=
  { db with
    folders := db.folders.updateWhere (fun _ => true) (movedRow folder parentId newPath)
      (movedRow_id folder parentId newPath) }

theorem Db.mem_moveRows {db : Db} {folder : Folder} {parentId : Option Uuid} {newPath : String}
    {x : Folder} : x ∈ (db.moveRows folder parentId newPath).folders.rows ↔
      ∃ f ∈ db.folders.rows, movedRow folder parentId newPath f = x := by
  rw [Db.moveRows, Table.mem_updateWhere]
  simp only [if_true]

theorem Db.find?_moveRows (db : Db) (folder : Folder) (parentId : Option Uuid) (newPath : String)
    (id : Uuid) : (db.moveRows folder parentId newPath).folders.find? id =
      (db.folders.find? id).map (movedRow folder parentId newPath) := by
  rw [Db.moveRows, Table.find?_updateWhere]
  simp only [if_true]

/-- No path starts with a longer one. -/
theorem not_hasPrefix_childPath (f : Folder) : hasPrefix f.path (childPath (some f)) = false := by
  refine Bool.eq_false_iff.mpr fun start => ?_
  have shorter := (List.isPrefixOf_iff_prefix.mp start).length_le
  simp only [childPath, String.toList_append, List.length_append, String.reduceToList,
    List.length_cons, List.length_nil] at shorter
  omega

/-- `moveFolder` is one update of the rows. -/
theorem moveFolder_eq {w : World} {userId : String} {folder : Folder} {parentId : Option Uuid}
    {parent : Option Folder} (own : w.db.ownedFolder folder.id userId = some folder)
    (target : w.db.targetFolder parentId userId = some parent) (proper : parentId ≠ some folder.id)
    (outside : ∀ p ∈ parent, hasPrefix p.path (childPath (some folder)) = false) :
    moveFolder w userId folder.id parentId =
      some { w with db := w.db.moveRows folder parentId (childPath parent) } := by
  obtain ⟨hfolder, -, howner⟩ := ownedFolder_owns own
  have unrelated : (parent.any fun p => hasPrefix p.path (childPath (some folder))) = false := by
    cases parent with
    | none => rfl
    | some p => exact outside p rfl
  rw [moveFolder, if_neg proper, own]
  simp only [Option.bind_eq_bind, Option.bind_some, target, unrelated, Bool.false_eq_true, if_false]
  refine congrArg (fun folders => some { w with db := { w.db with folders := folders } })
    (Table.ext_rows ?_)
  simp only [Table.update, Table.rows_updateWhere, List.map_map, if_true]
  refine List.map_congr_left fun f hf => ?_
  rw [movedRow, Function.comp]
  by_cases same : f.id = folder.id
  · have row : f = folder := w.db.folders.eq_of_key_eq hf hfolder same
    rw [row]
    simp [not_hasPrefix_childPath]
  · rw [if_neg same, ← howner]
    by_cases below : (f.ownerId = folder.ownerId &&
      hasPrefix f.path (childPath (some folder))) = true
    · rw [if_pos below]
      simp [same]
    · rw [if_neg below]
      simp [same]

/-- What is known of the rows that a move has read. -/
structure FolderMove.Valid (m : FolderMove) : Prop where
  owner : ∀ p ∈ m.parent, p.ownerId = m.folder.ownerId
  outside : ∀ p ∈ m.parent, hasPrefix p.path (childPath (some m.folder)) = false

/-- The rows are what was read, the folder does not go into itself, and the folders that were
selected are those below it. -/
structure FolderMove.Fits (m : FolderMove) (db : Db) (selected : List Folder) : Prop where
  folder : db.folders.find? m.folder.id = some m.folder
  parent : ∀ p ∈ m.parent, db.folders.find? p.id = some p
  proper : m.parentId ≠ some m.folder.id
  below : selected = db.properDescendants m.folder
  spelled : selected = [] ∨ m.folderId = m.folder.id.text

theorem ownedFolder_of_find? {db : Db} {f : Folder} (h : db.folders.find? f.id = some f) :
    db.ownedFolder f.id f.ownerId = some f := by
  rw [Db.ownedFolder, h, Option.filter_some, if_pos (decide_eq_true rfl)]

theorem targetFolder_eq_some {db : Db} {userId : String} {id : Option Uuid}
    {parent : Option Folder} : db.targetFolder id userId = some parent ↔
      id = parent.map (·.id) ∧
        ∀ p ∈ parent, db.folders.find? p.id = some p ∧ p.ownerId = userId := by
  constructor
  · intro h
    cases id with
    | none =>
      cases h
      exact ⟨rfl, fun p hp => absurd hp (by simp)⟩
    | some id =>
      obtain ⟨p, own, rfl⟩ := Option.map_eq_some_iff.mp h
      obtain ⟨hp, rfl, howner⟩ := ownedFolder_owns own
      refine ⟨rfl, ?_⟩
      rintro _ ⟨⟩
      exact ⟨Table.find?_of_mem hp, howner⟩
  · rintro ⟨rfl, h⟩
    cases parent with
    | none => rfl
    | some p =>
      obtain ⟨found, rfl⟩ := h p rfl
      rw [Option.map_some, Db.targetFolder, ownedFolder_of_find? found]
      rfl

theorem readMove_spec {readUuid : String → Option Uuid} {db : Db} {userId folderId : String}
    {parentId : Option String} {m : FolderMove}
    (h : db.readMove readUuid userId folderId parentId = some m) :
    m.Valid ∧ db.folders.find? m.folder.id = some m.folder ∧
      ∀ p ∈ m.parent, db.folders.find? p.id = some p := by
  simp only [Db.readMove, Option.bind_eq_bind, Option.bind_eq_some_iff,
    Option.ite_none_left_eq_some, Option.some.injEq] at h
  obtain ⟨-, id, -, folder, hfolder, target, -, parent, hparent, outside, rfl⟩ := h
  obtain ⟨hrow, -, howner⟩ := ownedFolder_owns hfolder
  have read := (targetFolder_eq_some.mp hparent).2
  refine ⟨⟨fun p hp => ?_, fun p hp => ?_⟩, Table.find?_of_mem hrow, fun p hp => (read p hp).1⟩
  · exact (read p hp).2.trans howner.symm
  · refine Bool.eq_false_iff.mpr fun inside => outside ?_
    exact (Option.any_eq_true _ _).mpr ⟨p, hp, inside⟩

/-! ## Writing -/

theorem replaceFirst_of_prefix {old new text : List Char} (start : old.isPrefixOf text) :
    replaceFirst old new text = new ++ text.drop old.length := by
  cases text with
  | nil =>
    cases old with
    | nil => simp [replaceFirst]
    | cons c rest => cases start
  | cons c rest => rw [replaceFirst, if_pos start]

namespace FolderMove

variable {m : FolderMove} {db : Db} {selected : List Folder}

theorem written_self {α : Type} [DecidableEq α] (current new : α) :
    written current new current = new := by
  unfold written
  split
  · rename_i same
    exact same.symm
  · rfl

theorem writtenParentId_self : m.writtenParentId m.folder.parentId = m.parentId := by
  unfold writtenParentId
  split
  · exact written_self _ _
  · rfl

theorem newDescendantPath_eq (spelled : m.folderId = m.folder.id.text) {path : String}
    (below : hasPrefix path (childPath (some m.folder)) = true) :
    m.newDescendantPath path =
      replaceStart path (childPath (some m.folder)) (m.newPath ++ m.folder.id.text ++ "/") := by
  have old : m.oldBelow = childPath (some m.folder) := by
    rw [oldBelow, spelled]
    rfl
  have new : m.newBelow = m.newPath ++ m.folder.id.text ++ "/" := by
    rw [newBelow, spelled]
  rw [newDescendantPath, old, new, replaceFirst_of_prefix below, replaceStart]
  apply String.toList_inj.mp
  simp only [String.toList_append, String.toList_ofList, String.length_toList]

/-- The folders that were selected are rows, and not those of the folder or its parent. -/
theorem Fits.mem_selected (fits : m.Fits db selected) {f : Folder} :
    f ∈ selected ↔ f ∈ db.folders.rows ∧ f.ownerId = m.folder.ownerId ∧
      hasPrefix f.path (childPath (some m.folder)) = true := by
  rw [fits.below, Db.properDescendants, Db.foldersBelow, List.mem_filter, Bool.and_eq_true,
    decide_eq_true_iff]

theorem Fits.write_eq (fits : m.Fits db selected) {f : Folder} (hf : f ∈ db.folders.rows) :
    m.write selected f = movedRow m.folder m.parentId m.newPath f := by
  have found (d : Folder) (hd : d ∈ selected) (same : d.id = f.id) : d = f :=
    db.folders.eq_of_key_eq (fits.mem_selected.mp hd).1 hf same
  rw [write, movedRow]
  by_cases own : f.id = m.folder.id
  · have same : f = m.folder :=
      db.folders.eq_of_key_eq hf (Table.find?_eq_some.mp fits.folder).1 own
    have unselected : (selected.any fun d => d.id = f.id) = false := by
      refine List.any_eq_false.mpr fun d hd here => ?_
      obtain rfl := found d hd (of_decide_eq_true here)
      have below := (fits.mem_selected.mp hd).2.2
      rw [same, not_hasPrefix_childPath] at below
      cases below
    rw [if_pos own, if_pos own, unselected, same]
    simp only [Bool.false_eq_true, if_false, written_self, writtenParentId_self]
  · rw [if_neg own, if_neg own]
    by_cases here : f ∈ selected
    · obtain ⟨-, owner, below⟩ := fits.mem_selected.mp here
      have spelled : m.folderId = m.folder.id.text := by
        refine fits.spelled.resolve_left fun empty => ?_
        rw [empty] at here
        cases here
      have first : (selected.find? fun d => d.id = f.id) = some f := by
        cases result : selected.find? fun d => d.id = f.id with
        | none => exact absurd (decide_eq_true rfl) (List.find?_eq_none.mp result f here)
        | some d =>
          rw [found d (List.mem_of_find?_eq_some result)]
          simpa using List.find?_some result
      rw [first, if_pos (by rw [owner, below]; simp)]
      simp only [written_self, newDescendantPath_eq spelled below]
    · have none_found : (selected.find? fun d => d.id = f.id) = none := by
        refine List.find?_eq_none.mpr fun d hd same => here ?_
        rwa [← found d hd (of_decide_eq_true same)]
      rw [none_found, if_neg]
      rw [Bool.and_eq_true, decide_eq_true_iff]
      exact fun both => here (fits.mem_selected.mpr ⟨hf, both⟩)

theorem Fits.writeMove_eq (fits : m.Fits db selected) :
    db.writeMove m selected = db.moveRows m.folder m.parentId m.newPath := by
  refine congrArg (fun folders => { db with folders := folders }) (Table.ext_rows ?_)
  simp only [Table.rows_updateWhere, if_true]
  exact List.map_congr_left fun f hf => fits.write_eq hf

theorem Fits.target (fits : m.Fits db selected) (valid : m.Valid) :
    db.targetFolder m.parentId m.folder.ownerId = some m.parent :=
  targetFolder_eq_some.mpr ⟨rfl, fun p hp => ⟨fits.parent p hp, valid.owner p hp⟩⟩

/-- What the session has loaded already is not among the folders below. -/
theorem descendantsOf_eq (valid : m.Valid) (folder : db.folders.find? m.folder.id = some m.folder)
    (parent : ∀ p ∈ m.parent, db.folders.find? p.id = some p)
    (spelled : m.folderId = m.folder.id.text) :
    db.descendantsOf m = db.properDescendants m.folder := by
  have old : m.oldBelow = childPath (some m.folder) := by
    rw [oldBelow, spelled]
    rfl
  rw [Db.descendantsOf, old, ← Db.properDescendants]
  refine (List.map_congr_left fun f hf => ?_).trans (List.map_id _)
  obtain ⟨hrow, both⟩ := List.mem_filter.mp hf
  have below := (Bool.and_eq_true_iff.mp both).2
  have row (g : Folder) (found : db.folders.find? g.id = some g) (same : f.id = g.id) : f = g :=
    db.folders.eq_of_key_eq hrow (Table.find?_eq_some.mp found).1 same
  have other : f.id ≠ m.folder.id := by
    intro same
    rw [row _ folder same, not_hasPrefix_childPath] at below
    cases below
  rw [loaded, if_neg other]
  cases read : m.parent with
  | none => rfl
  | some p =>
    have apart : p.id ≠ f.id := by
      intro same
      rw [row p (parent p read) same.symm, valid.outside p read] at below
      cases below
    rw [Option.filter_some, if_neg (by simpa using apart)]
    rfl

/-- What is written is the move of the folder that is meant. -/
theorem Fits.moveFolder_eq {w : World} (fits : m.Fits w.db selected) (valid : m.Valid) :
    moveFolder w m.folder.ownerId m.folder.id m.parentId =
      some { w with db := w.db.writeMove m selected } := by
  rw [fits.writeMove_eq]
  exact GigaPdf.moveFolder_eq (ownedFolder_of_find? fits.folder) (fits.target valid) fits.proper
    valid.outside

end FolderMove

end GigaPdf
