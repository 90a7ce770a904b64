import GigaPdf.Lib.Runs
import GigaPdf.Storage.Erasure

/-!
# The storage system

One step is one committed transaction of a request, or a change that the rest of the
application makes to accounts, organizations, memberships and plans. The limits of a
request are what it read at some earlier time, so they are its argument.
-/

namespace GigaPdf

inductive Request
  | saveDocument (userId name : String) (file : UploadFile) (folderId : Option Uuid)
      (limits : EffectiveLimits) (id : Uuid)
  | duplicate (userId : String) (documentId : Uuid) (limits : EffectiveLimits) (id : Uuid)
  | createVersion (userId : String) (documentId : Uuid) (data : Bytes) (editGrant : Bool)
  | restoreOriginal (userId : String) (documentId : Uuid)
  | delete (userId : String) (documentId : Uuid) (permanent : Bool) (now : Time)
  | restore (userId : String) (documentId : Uuid) (limits : EffectiveLimits)
  | adminDelete (documentId : Uuid) (permanent : Bool) (now : Time)
  | adminRestore (documentId : Uuid)
  | thumbnail (userId : String) (documentId : Uuid) (image : Bytes)
  | purge (cutoff : Time) (ids : List Uuid)
  | createFolder (userId name : String) (parentId : Option Uuid) (id : Uuid)
  | moveFolder (userId : String) (folderId : Uuid) (parentId : Option Uuid)
  | moveDocument (userId : String) (documentId : Uuid) (folderId : Option Uuid)
  | deleteFolder (userId : String) (folderId : Uuid) (cascade : Bool) (now : Time)
  | erase (userId : String)
  | getOrCreateQuota (userId : String)
  | setUserPlan (plan : UserQuota)
  | createTenant (tenant : Tenant)
  | setTenantPlan (plan : Tenant)
  | setMembers (members : List TenantMember)
  | setPlans (plans : Plans)

/-- Everything on a quota row but its counters may change with the user's plan. -/
def Db.setUserPlan (db : Db) (plan : UserQuota) : Db :=
  { db with
    users := db.users.update plan.userId
      (fun q =>
        { plan with
          userId := q.userId
          storageUsedBytes := q.storageUsedBytes
          documentCount := q.documentCount })
      fun _ => rfl }

/-- A new organization counts nothing. -/
def Db.createTenant (db : Db) (tenant : Tenant) : Option Db :=
  (db.tenants.insert? { tenant with storageUsedBytes := 0, documentCount := 0 }).map
    fun tenants => { db with tenants := tenants }

def Db.setTenantPlan (db : Db) (plan : Tenant) : Db :=
  { db with
    tenants := db.tenants.update plan.id
      (fun t =>
        { plan with
          id := t.id
          storageUsedBytes := t.storageUsedBytes
          documentCount := t.documentCount })
      fun _ => rfl }

def World.withDb (w : World) (db : Db) : World := { w with db := db }

/-- One step. -/
def handle (services : Services) (increment : Increment) (w : World) : Request → Option World
  | .saveDocument userId name file folderId limits id =>
    GigaPdf.saveDocument services increment w userId name file folderId limits id
  | .duplicate userId documentId limits id =>
    duplicateStoredDocument services increment w userId documentId limits id
  | .createVersion userId documentId data editGrant =>
    GigaPdf.createVersion services increment w userId documentId data editGrant
  | .restoreOriginal userId documentId =>
    GigaPdf.restoreOriginal services increment w userId documentId
  | .delete userId documentId permanent now =>
    deleteStoredDocument increment w userId documentId permanent now
  | .restore userId documentId limits => restoreStoredDocument increment w userId documentId limits
  | .adminDelete documentId permanent now => adminDeleteDocument increment w documentId permanent now
  | .adminRestore documentId => adminRestoreDocument increment w documentId
  | .thumbnail userId documentId image => uploadDocumentThumbnail w userId documentId image
  | .purge cutoff ids => purgeTrashedDocuments w cutoff ids
  | .createFolder userId name parentId id => GigaPdf.createFolder w userId name parentId id
  | .moveFolder userId folderId parentId => GigaPdf.moveFolder w userId folderId parentId
  | .moveDocument userId documentId folderId => GigaPdf.moveDocument w userId documentId folderId
  | .deleteFolder userId folderId cascade now =>
    GigaPdf.deleteFolder increment w userId folderId cascade now
  | .erase userId => GigaPdf.erase increment w userId
  | .getOrCreateQuota userId => some (w.withDb (w.db.getOrCreateQuota userId))
  | .setUserPlan plan => some (w.withDb (w.db.setUserPlan plan))
  | .createTenant tenant => (w.db.createTenant tenant).map w.withDb
  | .setTenantPlan plan => some (w.withDb (w.db.setTenantPlan plan))
  | .setMembers members => some (w.withDb { w.db with members := members })
  | .setPlans plans => some (w.withDb { w.db with plans := plans })

/-! ## Fixed values for runs on given inputs -/

/-- A reader that finds one page in every file, and an envelope that keeps the bytes. -/
def plainServices : Services where
  countPdfPages _ := some 1
  encrypt data _ _ := (data, "key")
  decrypt data _ _ _ := some data

/-- The limits that a user without a quota row yet gets. -/
def freshLimits (userId : String) : EffectiveLimits := personalLimits (freeQuotaValues userId)

end GigaPdf
