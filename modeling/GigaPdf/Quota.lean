import GigaPdf.Lib.Tally
import GigaPdf.Models
import Mathlib.Algebra.Order.Ring.Int
import Mathlib.Data.List.Sort

/-!
# The quota service

Limits and counters of `quota_service.py`. A counter is moved by an atomic SQL
increment in the transaction of the document rows it accounts for; `none` is an
exception, which rolls that transaction back.
-/

namespace GigaPdf

/-- The tables that the storage services read and write. -/
structure Db where
  documents : Documents
  versions : Versions
  folders : Folders
  users : Users
  tenants : Tenants
  members : List TenantMember
  plans : Plans

def Db.empty : Db := ⟨.empty, .empty, .empty, .empty, .empty, [], .empty⟩

/-! ## Plans and limits -/

structure PlanLimits where
  storageLimitBytes : Int
  apiCallsLimit : Int
  documentLimit : Int
deriving DecidableEq

def gigabytes (n : Int) : Int := n * 1024 * 1024 * 1024

def freePlan : PlanLimits := ⟨gigabytes 5, 1000, 1000⟩

def PLANS : String → Option PlanLimits
  | "free" => some freePlan
  | "starter" => some ⟨gigabytes 25, 10000, 5000⟩
  | "pro" => some ⟨gigabytes 100, 100000, UNLIMITED⟩
  | "enterprise" => some ⟨UNLIMITED, UNLIMITED, UNLIMITED⟩
  | _ => none

/-- Column values of a new, empty free-tier quota. -/
def freeQuotaValues (userId : String) : UserQuota where
  userId := userId
  email := none
  storageUsedBytes := 0
  storageLimitBytes := freePlan.storageLimitBytes
  documentCount := 0
  documentLimit := freePlan.documentLimit
  apiCallsUsed := 0
  apiCallsLimit := freePlan.apiCallsLimit
  planType := "free"
  planExpiresAt := none
  stripeCustomerId := none
  stripeSubscriptionId := none
  subscriptionStatus := .none
  currentPeriodEnd := none
  cancelAtPeriodEnd := false
  trialStartAt := none
  trialEndsAt := none
  hasUsedTrial := false
  isSuspended := false
  paymentFailedCount := 0

structure EffectiveLimits where
  storageLimitBytes : Int
  storageUsedBytes : Int
  apiCallsLimit : Int
  apiCallsUsed : Int
  documentLimit : Int
  documentCount : Int
  planType : String
  isTenantBased : Bool
  tenantId : Option Uuid
  tenantName : Option String
  tenantRole : Option TenantRole
deriving DecidableEq

/-- The organization that a charge under these limits is recorded on. -/
def EffectiveLimits.chargedTenant (limits : EffectiveLimits) : Option Uuid :=
  if limits.isTenantBased then limits.tenantId else none

def Db.getOrCreateQuota (db : Db) (userId : String) : Db :=
  match db.users.insert? (freeQuotaValues userId) with
  | some users => { db with users := users }
  | none => db

def Db.planOf (db : Db) (tenant : Tenant) : Option Plan :=
  tenant.planId.bind db.plans.find?

/-- Active memberships of active organizations, the highest role first. -/
def Db.activeMemberships (db : Db) (userId : String) : List (TenantMember × Tenant) :=
  (db.members.filterMap fun m =>
    if m.userId = userId ∧ m.isActive then
      (db.tenants.find? m.tenantId).bind fun t => if t.status = .active then some (m, t) else none
    else none).insertionSort fun a b => a.1.role.rank ≤ b.1.role.rank

/-- An organization with a tenant plan first, else the first active membership. -/
def Db.getActiveTenantMembership (db : Db) (userId : String) : Option (TenantMember × Tenant) :=
  let memberships := db.activeMemberships userId
  (memberships.find? fun m => (db.planOf m.2).any (·.isTenantPlan)).or memberships.head?

def Db.countingTenantId (db : Db) (ownerId : String) : Option Uuid :=
  match db.users.find? ownerId with
  | none => none
  | some _ => (db.getActiveTenantMembership ownerId).map (·.2.id)

def tenantLimits (plan : Option Plan) (member : TenantMember) (tenant : Tenant) :
    EffectiveLimits where
  storageLimitBytes := tenant.storageLimitBytes
  storageUsedBytes := tenant.storageUsedBytes
  apiCallsLimit := tenant.apiCallsLimit
  apiCallsUsed := tenant.apiCallsUsed
  documentLimit := tenant.documentLimit
  documentCount := tenant.documentCount
  planType := (plan.map (·.slug)).getD "enterprise"
  isTenantBased := true
  tenantId := some tenant.id
  tenantName := some tenant.name
  tenantRole := some member.role

def personalLimits (quota : UserQuota) : EffectiveLimits where
  storageLimitBytes := quota.storageLimitBytes
  storageUsedBytes := quota.storageUsedBytes
  apiCallsLimit := quota.apiCallsLimit
  apiCallsUsed := quota.apiCallsUsed
  documentLimit := quota.documentLimit
  documentCount := quota.documentCount
  planType := quota.planType
  isTenantBased := false
  tenantId := none
  tenantName := none
  tenantRole := none

/-- The limits of a user whose quota row exists. -/
def Db.getEffectiveLimits (db : Db) (userId : String) : Option EffectiveLimits :=
  (db.users.find? userId).map fun quota =>
    match db.getActiveTenantMembership userId with
    | some (member, tenant) => tenantLimits (db.planOf tenant) member tenant
    | none => personalLimits quota

/-- The quota check that an upload and a duplicate make before they write. -/
def EffectiveLimits.admits (limits : EffectiveLimits) (fileSize : Nat) : Bool :=
  !(limits.storageLimitBytes ≠ -1 && limits.storageUsedBytes + fileSize > limits.storageLimitBytes)
    && !(limits.documentLimit ≠ -1 && limits.documentCount ≥ limits.documentLimit)

/-! ## Moving the counters -/

/-- How an SQL increment computes the new value of a column. -/
abbrev Increment := Option Int → Int → Int

/-- `GREATEST(0, COALESCE(column, 0) + delta)`. -/
def clampedIncrement : Increment := fun column delta => max 0 (column.getD 0 + delta)

/-- The same increment without the clamp at zero. -/
def exactIncrement : Increment := fun column delta => column.getD 0 + delta

section
variable (increment : Increment)

/-- `INSERT ... ON CONFLICT (user_id) DO UPDATE`. -/
def Db.incrementUserStorage (db : Db) (userId : String) (deltaBytes deltaDocuments : Int) : Db :=
  { db with
    users := db.users.upsert
      { freeQuotaValues userId with
        storageUsedBytes := increment none deltaBytes
        documentCount := increment none deltaDocuments }
      (fun q =>
        { q with
          storageUsedBytes := increment (some q.storageUsedBytes) deltaBytes
          documentCount := increment (some q.documentCount) deltaDocuments })
      fun _ => rfl }

/-- Fails on a missing organization (`rowcount == 0`). -/
def Db.incrementTenantStorage (db : Db) (tenantId : Uuid) (deltaBytes deltaDocuments : Int) :
    Option Db :=
  match db.tenants.find? tenantId with
  | none => none
  | some _ => some
    { db with
      tenants := db.tenants.update tenantId
        (fun t =>
          { t with
            storageUsedBytes := increment (some t.storageUsedBytes) deltaBytes
            documentCount := increment (some t.documentCount) deltaDocuments })
        fun _ => rfl }

def Db.moveCounter (db : Db) (ownerId : String) (tenantId : Option Uuid)
    (deltaBytes deltaDocuments : Int) : Option Db :=
  if deltaBytes = 0 ∧ deltaDocuments = 0 then some db
  else match tenantId with
    | some tenant => db.incrementTenantStorage increment tenant deltaBytes deltaDocuments
    | none => some (db.incrementUserStorage increment ownerId deltaBytes deltaDocuments)

/-- The size that a document counts for. -/
def StoredDocument.size (d : StoredDocument) : Nat := d.fileSizeBytes.getD 0

/-- The document comes back with the counter it is charged to. -/
def Db.adjustDocumentStorage (db : Db) (document : StoredDocument)
    (deltaBytes deltaDocuments : Int) (limits : Option EffectiveLimits) :
    Option (Db × StoredDocument) :=
  let tenantId :=
    if deltaDocuments > 0 then
      match limits with
      | some limits => limits.chargedTenant
      | none => db.countingTenantId document.ownerId
    else document.quotaTenantId
  (db.moveCounter increment document.ownerId tenantId deltaBytes deltaDocuments).map
    fun db => (db, { document with quotaTenantId := tenantId })

/-- Size and number of the documents in a list, a pair for each of their keys. -/
def tallyDocuments {κ : Type} [DecidableEq κ] (key : StoredDocument → κ)
    (documents : List StoredDocument) : List (κ × Int × Int) :=
  Tally.tally key (fun d => ((d.size : Int), (1 : Int))) documents

def Db.releaseDocuments (db : Db) (documents : List StoredDocument) : Option Db :=
  (tallyDocuments (fun d => (d.ownerId, d.quotaTenantId)) documents).foldlM
    (fun db freed => db.moveCounter increment freed.1.1 freed.1.2 (-freed.2.1) (-freed.2.2)) db

/-- Before organizations are deleted, their documents move to their owners. -/
def Db.handOverTenantDocuments (db : Db) (tenantIds : List Uuid) : Db :=
  let held (d : StoredDocument) : Bool := d.quotaTenantId.any (· ∈ tenantIds)
  let active := db.documents.rows.filter fun d => held d && !d.isDeleted
  let charged := tallyDocuments (·.ownerId) active
  let db := charged.foldl
    (fun db owner => db.incrementUserStorage increment owner.1 owner.2.1 owner.2.2) db
  { db with
    documents := db.documents.updateWhere held (fun d => { d with quotaTenantId := none })
      fun _ => rfl }

end

end GigaPdf
