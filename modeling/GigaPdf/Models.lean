import GigaPdf.Lib.Table

/-!
# Rows

The rows that the modelled services read and write, under the source's column
names. A money, date or text column that no modelled function reads is left out.
-/

namespace GigaPdf

/-- A UUID column: a non-empty text without a slash. -/
structure Uuid where
  text : String
  nonempty : text ≠ ""
  noSlash : '/' ∉ text.toList
deriving DecidableEq

def uuid (text : String)
    (valid : decide (text ≠ "" ∧ '/' ∉ text.toList) = true := by exact Eq.refl true) : Uuid :=
  ⟨text, (of_decide_eq_true valid).1, (of_decide_eq_true valid).2⟩

/-- Seconds since a fixed date. -/
abbrev Time := Int

def days (n : Int) : Time := n * 24 * 60 * 60

abbrev Bytes := List UInt8

/-- Sentinel for a limit that does not bind. -/
def UNLIMITED : Int := -1

structure StoredDocument where
  id : Uuid
  name : String
  ownerId : String
  folderId : Option Uuid
  pageCount : Nat
  currentVersion : Nat
  fileSizeBytes : Option Nat
  mimeType : Option String
  originalFormat : Option String
  thumbnailPath : Option String
  isDeleted : Bool
  deletedAt : Option Time
  /-- The organization whose counter holds the document; `none` is the owner's own. -/
  quotaTenantId : Option Uuid
deriving DecidableEq

/-- `content` stands for `file_hash`: the bytes that the row was written for. -/
structure DocumentVersion where
  documentId : Uuid
  versionNumber : Nat
  filePath : String
  fileSizeBytes : Nat
  content : Bytes
  createdBy : String
  encryptionKey : Option String
  isEncrypted : Bool
deriving DecidableEq

def DocumentVersion.key (v : DocumentVersion) : Uuid × Nat := (v.documentId, v.versionNumber)

structure Folder where
  id : Uuid
  name : String
  ownerId : String
  parentId : Option Uuid
  path : String
deriving DecidableEq

/-- The values of `subscription_status` that Stripe and the application write. -/
inductive SubscriptionStatus
  | none | active | canceled | pastDue | trialing | incomplete | incompleteExpired | unpaid | paused
deriving DecidableEq, Repr

structure UserQuota where
  userId : String
  email : Option String
  storageUsedBytes : Int
  storageLimitBytes : Int
  documentCount : Int
  documentLimit : Int
  apiCallsUsed : Int
  apiCallsLimit : Int
  planType : String
  planExpiresAt : Option Time
  stripeCustomerId : Option String
  stripeSubscriptionId : Option String
  subscriptionStatus : SubscriptionStatus
  currentPeriodEnd : Option Time
  cancelAtPeriodEnd : Bool
  trialStartAt : Option Time
  trialEndsAt : Option Time
  hasUsedTrial : Bool
  isSuspended : Bool
  paymentFailedCount : Nat
deriving DecidableEq

inductive TenantStatus
  | active | suspended | trial | cancelled
deriving DecidableEq, Repr

structure Tenant where
  id : Uuid
  name : String
  planId : Option Uuid
  status : TenantStatus
  trialStartAt : Option Time
  trialEndsAt : Option Time
  hasUsedTrial : Bool
  stripeCustomerId : Option String
  stripeSubscriptionId : Option String
  storageLimitBytes : Int
  storageUsedBytes : Int
  apiCallsLimit : Int
  apiCallsUsed : Int
  documentLimit : Int
  documentCount : Int
  maxMembers : Int
deriving DecidableEq

inductive TenantRole
  | owner | admin | manager | member | viewer
deriving DecidableEq, Repr

/-- The order of the enumeration in PostgreSQL. -/
def TenantRole.rank : TenantRole → Nat
  | .owner => 0
  | .admin => 1
  | .manager => 2
  | .member => 3
  | .viewer => 4

/-- `userId` names the member's quota row, which has one row a user. -/
structure TenantMember where
  tenantId : Uuid
  userId : String
  role : TenantRole
  isActive : Bool
deriving DecidableEq

structure Plan where
  id : Uuid
  slug : String
  storageLimitBytes : Int
  apiCallsLimit : Int
  documentLimit : Int
  isTenantPlan : Bool
  maxMembers : Int
  linkedTenantId : Option Uuid
  isActive : Bool
  trialDays : Option Nat
deriving DecidableEq

abbrev Documents := Table StoredDocument.id
abbrev Versions := Table DocumentVersion.key
abbrev Folders := Table Folder.id
abbrev Users := Table UserQuota.userId
abbrev Tenants := Table Tenant.id
abbrev Plans := Table Plan.id

/-- A query for at most one row raises on a second one. -/
def scalarOneOrNone {α : Type} : List α → Option (Option α)
  | [] => some none
  | [x] => some (some x)
  | _ => none

theorem scalarOneOrNone_isSome {α : Type} {l : List α} (h : l.length ≤ 1) :
    (scalarOneOrNone l).isSome = true := by
  match l with
  | [] => rfl
  | [_] => rfl
  | _ :: _ :: _ => simp at h

theorem eq_toList_of_scalarOneOrNone {α : Type} {l : List α} {x : Option α}
    (h : scalarOneOrNone l = some x) : l = x.toList := by
  match l, h with
  | [], h => cases h; rfl
  | [_], h => cases h; rfl

theorem length_le_one_of_unique {α : Type} {l : List α} (nodup : l.Nodup)
    (same : ∀ a ∈ l, ∀ b ∈ l, a = b) : l.length ≤ 1 := by
  match l with
  | [] => simp
  | [_] => simp
  | a :: b :: rest =>
    have equal := same a (by simp) b (by simp)
    simp [equal] at nodup

theorem scalarOneOrNone_none {α : Type} {l : List α} (h : scalarOneOrNone l = some none) :
    l = [] := by
  match l with
  | [] => rfl
  | [_] => cases h
  | _ :: _ :: _ => cases h

theorem scalarOneOrNone_some {α : Type} {l : List α} {x : α}
    (h : scalarOneOrNone l = some (some x)) : x ∈ l := by
  match l with
  | [] => cases h
  | [_] => cases h; exact List.mem_singleton_self x
  | _ :: _ :: _ => cases h

end GigaPdf
