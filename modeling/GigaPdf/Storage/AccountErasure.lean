import GigaPdf.Lib.Text
import GigaPdf.Sharing.Access
import GigaPdf.Storage.Frames
import GigaPdf.Storage.Mentions
import Mathlib.Data.List.Sort

/-!
# The whole erasure of an account

`AccountErasureService.erase` with all its tables and its report. Its statements are taken to
succeed: a text that is too long for its column, or a foreign key that stops a delete, raises and
commits nothing.
-/

namespace GigaPdf

open Substitution

/-! ## Rows -/

/-- A row of the `users` table of Better Auth. -/
structure AuthUser where
  id : String
  email : String

structure Verification where
  identifier : String
  value : String

/-- A session, lock or job: the user it belongs to, and its document. -/
structure DocumentActivity where
  userId : String
  documentId : Option Uuid

structure ShareNotification where
  id : Uuid
  userId : String
  documentId : Option Uuid
  title : List Char
  message : Option (List Char)
  extraData : Option JsonColumn

structure ActivityLog where
  id : Uuid
  documentId : Option Uuid
  userId : String
  userEmail : Option String
  userName : Option String
  ipAddress : Option String
  userAgent : Option String
  tenantId : Option Uuid
  extraData : Option JsonColumn

/-- Members and quotas are known by their user, who has one quota row. -/
structure TenantDocumentLink extends TenantDocument where
  addedById : String

structure TenantInvitation where
  tenantId : Uuid
  email : String
  invitedById : String
  acceptedById : Option String

structure AccountDb where
  db : Db
  objects : List Key
  users : List AuthUser
  signatures : List String
  verification : List Verification
  apiKeys : List String
  collaborationSessions : List DocumentActivity
  elementLocks : List DocumentActivity
  asyncJobs : List DocumentActivity
  notifications : List ShareNotification
  shares : Table DocumentShare.id
  invitations : Table ShareInvitation.id
  logs : List ActivityLog
  tenantDocuments : List TenantDocumentLink
  tenantInvitations : List TenantInvitation

def ShareNotification.quoted (n : ShareNotification) : Quoted :=
  ⟨n.title :: n.message.toList, n.extraData⟩

def ActivityLog.quoted (l : ActivityLog) : Quoted := ⟨[], l.extraData⟩

structure AccountErasureReport where
  storageObjectsDeleted : Nat
  deleted : List (String × Nat)
  anonymized : List (String × Nat)

namespace AccountErasureReport

def isNoop (report : AccountErasureReport) : Prop :=
  report.storageObjectsDeleted = 0 ∧ (∀ count ∈ report.deleted, count.2 = 0) ∧
    ∀ count ∈ report.anonymized, count.2 = 0

def addDeleted (report : AccountErasureReport) (counts : List (String × Nat)) :
    AccountErasureReport :=
  { report with deleted := report.deleted ++ counts }

def addAnonymized (report : AccountErasureReport) (counts : List (String × Nat)) :
    AccountErasureReport :=
  { report with anonymized := report.anonymized ++ counts }

end AccountErasureReport

/-! ## The identity -/

structure Identity where
  userId : String
  emails : List (List Char)
  hasQuota : Bool

section
variable (fold : Char → Char)

def normalizedEmail (email : String) : List Char := (Text.strip email.toList).map fold

def AccountDb.loadIdentity (a : AccountDb) (userId : String) : Identity :=
  let identityRow := a.users.find? fun u => u.id = userId
  let quotaRow := a.db.users.find? userId
  let emails := (identityRow.map (·.email)).toList ++ (quotaRow.bind (·.email)).toList
  ⟨userId, (emails.filter (· ≠ "")).map (normalizedEmail fold), quotaRow.isSome⟩

/-- The longest needle first, so that no needle hides a longer one. -/
def Identity.needles (identity : Identity) : List (List Char) :=
  (identity.userId.toList :: identity.emails).dedup.insertionSort fun a b => b.length ≤ a.length

/-! ## Object storage -/

/-- `delete_prefix`, and how many objects it has deleted. -/
def deleteUnder (objects : List Key) (start : String) : List Key × Nat :=
  (objects.filter fun key => !hasPrefix key start, objects.countP fun key => hasPrefix key start)

def sweepPrefixes (objects : List Key) (userId : String) : List Key × Nat :=
  (storagePrefixes userId).foldl
    (fun done start => ((deleteUnder done.1 start).1, done.2 + (deleteUnder done.1 start).2))
    (objects, 0)

/-- `delete_keys` counts the keys that it is given. -/
def deleteAllObjects (objects : List Key) (userId : String) (recordedKeys : List Key) :
    List Key × Nat :=
  let (objects, count) := sweepPrefixes objects userId
  let stray := recordedKeys.filter fun key => !(storagePrefixes userId).any (hasPrefix key)
  (objects.filter fun key => key ∉ stray, count + stray.length)

/-! ## Database -/

/-- The row after `_scrub_mentions`. -/
def ShareNotification.scrub (needles : List (List Char)) (n : ShareNotification) :
    ShareNotification :=
  if n.quoted.Found fold needles then
    { n with
      title := scrubText fold needles n.title
      message := n.message.map (scrubText fold needles)
      extraData := (n.quoted.scrub fold needles).extraData }
  else n

def ActivityLog.scrub (needles : List (List Char)) (l : ActivityLog) : ActivityLog :=
  if l.quoted.Found fold needles then
    { l with extraData := (l.quoted.scrub fold needles).extraData }
  else l

/-- An entry of the user that belongs to no document and no organization. -/
def ActivityLog.personal (userId : String) (l : ActivityLog) : Bool :=
  l.userId = userId && l.documentId.isNone && l.tenantId.isNone

def ActivityLog.anonymize (userId : String) (l : ActivityLog) : ActivityLog :=
  if l.userId = userId then
    { l with
      userId := ERASED_USER
      userEmail := none
      userName := none
      ipAddress := none
      userAgent := none }
  else l

theorem Plan.deactivated_id (p : Plan) : Plan.id { p with isActive := false } = p.id := rfl

def Db.anonymizeVersions (db : Db) (userId : String) : Db :=
  { db with
    versions := db.versions.updateWhere (fun v => v.createdBy = userId)
      (fun v => { v with createdBy := ERASED_USER }) fun _ => rfl }

namespace AccountDb

variable (a : AccountDb) (report : AccountErasureReport)

/-- Activity of the user or on the user's documents, and the user's keys and notifications. -/
def eraseActivity (userId : String) (documentIds : List Uuid) : AccountDb × AccountErasureReport :=
  let tied (r : DocumentActivity) : Bool :=
    r.userId = userId || r.documentId.any (· ∈ documentIds)
  ({ a with
      collaborationSessions := a.collaborationSessions.filter fun r => !tied r
      elementLocks := a.elementLocks.filter fun r => !tied r
      asyncJobs := a.asyncJobs.filter fun r => !tied r
      apiKeys := a.apiKeys.filter fun owner => owner ≠ userId
      notifications := a.notifications.filter fun n => n.userId ≠ userId },
    report.addDeleted [
      ("collaboration_sessions", a.collaborationSessions.countP tied),
      ("element_locks", a.elementLocks.countP tied),
      ("async_jobs", a.asyncJobs.countP tied),
      ("api_keys", a.apiKeys.countP fun owner => owner = userId),
      ("share_notifications", a.notifications.countP fun n => n.userId = userId)])

/-- Shares with the user, and the invitations that the user has sent or received. -/
def eraseAccess (identity : Identity) : AccountDb × AccountErasureReport :=
  let shared (s : DocumentShare) : Bool := s.sharedWithUserId = some identity.userId
  let invited (i : ShareInvitation) : Bool :=
    i.inviterId = identity.userId || i.inviteeUserId = some identity.userId ||
      i.inviteeEmail.toList.map fold ∈ identity.emails
  ({ a with
      shares := a.shares.deleteWhere shared
      invitations := a.invitations.deleteWhere invited },
    report.addDeleted [
      ("document_shares", a.shares.rows.countP shared),
      ("document_share_invitations", a.invitations.rows.countP invited)])

/-- The user's footprint on documents that stay. -/
def anonymizeFootprint (userId : String) : AccountDb × AccountErasureReport :=
  let created := a.shares.updateWhere (fun s => s.createdBy = userId)
    (fun s => { s with createdBy := ERASED_USER }) fun _ => rfl
  ({ a with
      db := a.db.anonymizeVersions userId
      shares := created.updateWhere (fun s => s.revokedBy = some userId)
        (fun s => { s with revokedBy := some ERASED_USER }) fun _ => rfl },
    report.addAnonymized [
      ("document_versions", a.db.versions.rows.countP fun v => v.createdBy = userId),
      ("document_shares", a.shares.rows.countP (fun s => s.createdBy = userId) +
        created.rows.countP fun s => s.revokedBy = some userId)])

/-- The user's documents, with what cascades from them, and the user's folders. -/
def eraseDocuments (userId : String) : AccountDb × AccountErasureReport :=
  let ids := (a.db.documents.rows.filter fun d => d.ownerId = userId).map (·.id)
  let folders := a.db.folders.rows.filter fun f => f.ownerId = userId
  ({ a with
      db := (a.db.deleteDocuments ids).deleteFolders (folders.map (·.id))
      notifications := a.notifications.filter fun n => !n.documentId.any (· ∈ ids)
      shares := a.shares.deleteWhere fun s => s.documentId ∈ ids
      invitations := a.invitations.deleteWhere fun i => i.documentId ∈ ids
      logs := a.logs.filter fun l => !l.documentId.any (· ∈ ids)
      tenantDocuments := a.tenantDocuments.filter fun d => d.documentId ∉ ids },
    report.addDeleted [("stored_documents", ids.length), ("folders", folders.length)])

/-- Personal entries of the audit trail go; the others lose their actor. -/
def eraseTrail (userId : String) : AccountDb × AccountErasureReport :=
  let kept := a.logs.filter fun l => !l.personal userId
  ({ a with logs := kept.map (·.anonymize userId) },
    (report.addDeleted [("activity_logs", a.logs.countP (·.personal userId))]).addAnonymized
      [("activity_logs", kept.countP fun l => l.userId = userId)])

/-- Rows in which the search finds the user are rewritten, and counted. -/
def scrubMentions (needles : List (List Char)) : AccountDb × AccountErasureReport :=
  ({ a with
      notifications := a.notifications.map (·.scrub fold needles)
      logs := a.logs.map (·.scrub fold needles) },
    report.addAnonymized [("mentions",
      a.notifications.countP (fun n => n.quoted.Found fold needles) +
        a.logs.countP fun l => l.quoted.Found fold needles)])

/-- The members stand in the order in which they have joined. -/
def ownerBesides (members : List TenantMember) (tenantId : Uuid) (userId : String) :
    Option String :=
  (members.find? fun m => m.tenantId = tenantId && m.role = .owner && m.userId ≠ userId).map
    (·.userId)

/-- The organizations to delete, with what cascades from them, and the invitations. -/
def eraseTenants (increment : Increment) (identity : Identity) (tenantIds : List Uuid) :
    AccountDb × AccountErasureReport :=
  let db := { a.db with
    plans := a.db.plans.updateWhere (fun p => p.linkedTenantId.any (· ∈ tenantIds))
      (fun p => { p with isActive := false }) Plan.deactivated_id }
  let invitations := a.tenantInvitations.filter fun i => i.tenantId ∉ tenantIds
  let invited (i : TenantInvitation) : Bool :=
    identity.hasQuota && (i.invitedById = identity.userId ||
      i.acceptedById = some identity.userId) || i.email.toList.map fold ∈ identity.emails
  ({ a with
      db := (db.handOverTenantDocuments increment tenantIds).deleteTenants tenantIds
      tenantDocuments := a.tenantDocuments.filter fun d => d.tenantId ∉ tenantIds
      tenantInvitations := invitations.filter fun i => !invited i },
    report.addDeleted [
      ("tenants", a.db.tenants.rows.countP fun t => t.id ∈ tenantIds),
      ("tenant_invitations", invitations.countP invited)])

/-- Documents that the user has added to organizations that stay go to their owners. -/
def eraseMemberships (identity : Identity) : AccountDb × AccountErasureReport :=
  if identity.hasQuota then
    let added (d : TenantDocumentLink) : Bool := d.addedById = identity.userId
    let owner (d : TenantDocumentLink) : Option String :=
      ownerBesides a.db.members d.tenantId identity.userId
    ({ a with
        tenantDocuments := a.tenantDocuments.filterMap fun d =>
          if added d then (owner d).map fun userId => { d with addedById := userId } else some d
        db := { a.db with
          members := a.db.members.filter fun m => m.userId ≠ identity.userId } },
      (report.addDeleted [
        ("tenant_documents", a.tenantDocuments.countP fun d => added d && (owner d).isNone),
        ("tenant_members", a.db.members.countP fun m => m.userId = identity.userId)]).addAnonymized
          [("tenant_documents", a.tenantDocuments.countP fun d => added d && (owner d).isSome)])
  else (a, report.addDeleted [("tenant_documents", 0), ("tenant_members", 0)])

/-- The quota row and the tables of Better Auth. -/
def eraseIdentity (identity : Identity) : AccountDb × AccountErasureReport :=
  let keyed (v : Verification) : Bool :=
    v.identifier.toList.map fold ∈ identity.emails || v.value = identity.userId
  ({ a with
      db := { a.db with users := a.db.users.deleteWhere fun q => q.userId = identity.userId }
      signatures := a.signatures.filter fun owner => owner ≠ identity.userId
      verification := a.verification.filter fun v => !keyed v
      users := a.users.filter fun u => u.id ≠ identity.userId },
    report.addDeleted [
      ("user_quotas", a.db.users.rows.countP fun q => q.userId = identity.userId),
      ("user_signatures", a.signatures.countP fun owner => owner = identity.userId),
      ("verification", a.verification.countP keyed),
      ("users", a.users.countP fun u => u.id = identity.userId)])

/-- The statements after the release of the quota counters. -/
def eraseTables (increment : Increment) (identity : Identity) (tenantIds : List Uuid) :
    AccountDb × AccountErasureReport :=
  let documents := a.db.documents.rows.filter fun d => d.ownerId = identity.userId
  let (a, report) := a.eraseActivity report identity.userId (documents.map (·.id))
  let (a, report) := a.eraseAccess fold report identity
  let (a, report) := a.anonymizeFootprint report identity.userId
  let (a, report) := a.eraseDocuments report identity.userId
  let (a, report) := a.eraseTrail report identity.userId
  let (a, report) := a.scrubMentions fold report identity.needles
  let (a, report) := a.eraseTenants fold report increment identity tenantIds
  let (a, report) := a.eraseMemberships report identity
  a.eraseIdentity fold report identity

def eraseRows (increment : Increment) (identity : Identity) (tenantIds : List Uuid) :
    Option (AccountDb × AccountErasureReport) := do
  let documents := a.db.documents.rows.filter fun d => d.ownerId = identity.userId
  let db ← a.db.releaseDocuments increment (documents.filter fun d => !d.isDeleted)
  some ({ a with db := db }.eraseTables fold report increment identity tenantIds)

def erase (increment : Increment) (userId : String) :
    Option (AccountDb × AccountErasureReport) := do
  if userId = "" ∨ '/' ∈ userId.toList ∨ userId = ERASED_USER then none
  else
    let identity := a.loadIdentity fold userId
    let tenantIds ← a.db.planTenants userId
    if !a.db.checkSubscription userId tenantIds then none
    else
      let documents := a.db.documents.rows.filter fun d => d.ownerId = userId
      let recordedKeys := a.db.collectDocumentObjectKeys documents
      let (objects, count) := deleteAllObjects a.objects userId recordedKeys
      let (a, report) ← { a with objects := objects }.eraseRows fold ⟨count, [], []⟩ increment
        identity tenantIds
      let (objects, swept) := sweepPrefixes a.objects userId
      some ({ a with objects := objects },
        { report with storageObjectsDeleted := report.storageObjectsDeleted + swept })

end AccountDb

end

end GigaPdf
