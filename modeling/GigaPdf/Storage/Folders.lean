import GigaPdf.Lib.Closure
import GigaPdf.Storage.Documents

/-!
# Folder endpoints

Creating, moving and deleting folders, and moving a document to a folder. The documents
to trash are found by a recursive query on `parent_id`, the folders go by its foreign key.
-/

namespace GigaPdf

def Db.ownedFolder (db : Db) (id : Uuid) (userId : String) : Option Folder :=
  (db.folders.find? id).filter fun f => f.ownerId = userId

/-- The owner's folder that a request names, if it names one. -/
def Db.targetFolder (db : Db) (id : Option Uuid) (userId : String) : Option (Option Folder) :=
  match id with
  | none => some none
  | some id => (db.ownedFolder id userId).map some

/-- The path of what is directly in a folder; `none` is the root. -/
def childPath : Option Folder → String
  | none => "/"
  | some parent => parent.path ++ parent.id.text ++ "/"

def hasPrefix (text start : String) : Bool := start.toList.isPrefixOf text.toList

/-- `text.replace(old, new, 1)` for a text that starts with `old`. -/
def replaceStart (text old new : String) : String :=
  new ++ String.ofList (text.toList.drop old.length)

def createFolder (w : World) (userId name : String) (parentId : Option Uuid) (id : Uuid) :
    Option World := do
  let parent ← w.db.targetFolder parentId userId
  let w ← w.generateUuid id
  let folders ← w.db.folders.insert?
    { id := id, name := name, ownerId := userId, parentId := parentId, path := childPath parent }
  some { w with db := { w.db with folders := folders } }

def moveFolder (w : World) (userId : String) (folderId : Uuid) (parentId : Option Uuid) :
    Option World := do
  if parentId = some folderId then none
  else
    let folder ← w.db.ownedFolder folderId userId
    let parent ← w.db.targetFolder parentId userId
    let below := childPath (some folder)
    if parent.any fun p => hasPrefix p.path below then none
    else
      let newPath := childPath parent
      let folders := w.db.folders.updateWhere
        (fun f => f.ownerId = userId && hasPrefix f.path below)
        (fun f => { f with path := replaceStart f.path below (newPath ++ folder.id.text ++ "/") })
        fun _ => rfl
      let folders := folders.update folderId
        (fun f => { f with parentId := parentId, path := newPath }) fun _ => rfl
      some { w with db := { w.db with folders := folders } }

def moveDocument (w : World) (userId : String) (documentId : Uuid) (folderId : Option Uuid) :
    Option World := do
  let document ← w.db.activeDocument documentId userId
  let _ ← w.db.targetFolder folderId userId
  some { w with db := w.db.flush { document with folderId := folderId } }

def childFolders (folders : List Folder) (parents : List Uuid) : List Uuid :=
  (folders.filter fun f => f.parentId.any (· ∈ parents)).map (·.id)

/-- The folders of a level and everything below it. A chain of folders without a cycle is
no longer than the table; on a cycle the recursive query does not end. -/
def descendants (folders : List Folder) (fuel : Nat) (level : List Uuid) : Option (List Uuid) :=
  Closure.levels (childFolders folders) fuel level

def Db.lockFolderSubtree (db : Db) (folderId : Uuid) (ownerId : String) : Option (List Uuid) := do
  let folder ← db.ownedFolder folderId ownerId
  descendants db.folders.rows db.folders.rows.length [folder.id]

/-- What `parent_id ... ON DELETE CASCADE` deletes with some folders. -/
def cascadeFolders (folders : List Folder) (ids : List Uuid) : List Uuid :=
  Closure.grow (childFolders folders) folders.length ids

/-- `DELETE` of folders: sub-folders go with them, and the documents in any of them are
detached (`ON DELETE SET NULL`). -/
def Db.deleteFolders (db : Db) (ids : List Uuid) : Db :=
  let gone := cascadeFolders db.folders.rows ids
  { db with
    folders := db.folders.deleteWhere fun f => f.id ∈ gone
    documents := db.documents.updateWhere (fun d => d.folderId.any (· ∈ gone))
      (fun d => { d with folderId := none }) fun _ => rfl }

section
variable (increment : Increment)

def deleteFolder (w : World) (userId : String) (folderId : Uuid) (cascade : Bool) (now : Time) :
    Option World := do
  let subtree ← w.db.lockFolderSubtree folderId userId
  let inside (d : StoredDocument) : Bool := d.folderId.any (· ∈ subtree) && !d.isDeleted
  let active := w.db.documents.rows.filter inside
  if active ≠ [] ∧ !cascade then none
  else
    let trashed :=
      { w.db with
        documents := w.db.documents.updateWhere inside
          (fun d => { d with isDeleted := true, deletedAt := some now }) fun _ => rfl }
    let db ← trashed.releaseDocuments increment active
    some { w with db := db.deleteFolders [folderId] }

end

end GigaPdf
