import GigaPdf.Storage.Folders

/-!
# Account erasure

The parts of `account_erasure_service.py` that delete documents, folders, organizations,
memberships and quotas.
-/

namespace GigaPdf

def ERASED_USER : String := "erased-user"

/-- Statuses of a personal subscription that would keep billing the account. -/
def billing : SubscriptionStatus → Bool
  | .active | .trialing | .pastDue | .unpaid | .incomplete => true
  | .none | .canceled | .incompleteExpired | .paused => false

/-- The organizations deleted with the user, who is their only member. An organization
that the user owns and that has other members blocks the erasure. -/
def Db.planTenants (db : Db) (userId : String) : Option (List Uuid) :=
  if (db.users.find? userId).isNone then some []
  else
    let others (m : TenantMember) : Bool :=
      db.members.any fun o => o.tenantId = m.tenantId && o.userId ≠ userId
    let memberships := db.members.filter fun m => m.userId = userId
    if memberships.any fun m => others m && m.role = .owner then none
    else some ((memberships.filter fun m => !others m).map (·.tenantId))

/-- No running subscription, the user's own or one of an organization to delete. -/
def Db.checkSubscription (db : Db) (userId : String) (tenantIds : List Uuid) : Bool :=
  !((db.users.find? userId).any fun q =>
      q.stripeSubscriptionId.isSome && billing q.subscriptionStatus && !q.cancelAtPeriodEnd) &&
    !db.tenants.rows.any fun t =>
      t.id ∈ tenantIds && t.stripeSubscriptionId.isSome && t.status ≠ .cancelled

def storagePrefixes (userId : String) : List String :=
  [s!"documents/{userId}/", s!"thumbnails/{userId}/"]

/-- The objects under the user's prefixes, and the recorded ones outside them. -/
def eraseObjects (objects : Key → Option Bytes) (userId : String) (recordedKeys : List Key) :
    Key → Option Bytes :=
  fun k => if (storagePrefixes userId).any (hasPrefix k) ∨ k ∈ recordedKeys then none else objects k

/-- `DELETE` of organizations; their memberships cascade. -/
def Db.deleteTenants (db : Db) (ids : List Uuid) : Db :=
  { db with
    tenants := db.tenants.deleteWhere fun t => t.id ∈ ids
    members := db.members.filter fun m => m.tenantId ∉ ids }

section
variable (increment : Increment)

def Db.eraseTenancy (db : Db) (userId : String) (tenantIds : List Uuid) : Db :=
  let db :=
    { db with
      plans := db.plans.updateWhere (fun p => p.linkedTenantId.any (· ∈ tenantIds))
        (fun p => { p with isActive := false }) fun _ => rfl }
  let db := (db.handOverTenantDocuments increment tenantIds).deleteTenants tenantIds
  if (db.users.find? userId).isNone then db
  else { db with members := db.members.filter fun m => m.userId ≠ userId }

def Db.eraseRows (db : Db) (userId : String) (tenantIds : List Uuid) : Option Db := do
  let documents := db.documents.rows.filter fun d => d.ownerId = userId
  let db ← db.releaseDocuments increment (documents.filter fun d => !d.isDeleted)
  let db := db.deleteDocuments (documents.map (·.id))
  let db := db.deleteFolders ((db.folders.rows.filter fun f => f.ownerId = userId).map (·.id))
  let db := db.eraseTenancy increment userId tenantIds
  some { db with users := db.users.deleteWhere fun q => q.userId = userId }

def erase (w : World) (userId : String) : Option World := do
  if userId = "" ∨ '/' ∈ userId.toList ∨ userId = ERASED_USER then none
  else
    let tenantIds ← w.db.planTenants userId
    if !w.db.checkSubscription userId tenantIds then none
    else
      let documents := w.db.documents.rows.filter fun d => d.ownerId = userId
      let keys := w.db.collectDocumentObjectKeys documents
      let db ← w.db.eraseRows increment userId tenantIds
      some { w with db := db, objects := eraseObjects w.objects userId keys }

end

end GigaPdf
