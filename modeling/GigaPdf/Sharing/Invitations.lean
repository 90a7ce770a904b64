import GigaPdf.Lib.Runs
import GigaPdf.Storage.Documents

/-!
# Sharing

Invitations and direct shares: `invitation_service.py`, `share_crud_service.py`, and the lookups
of `access_guard.py` and `permission_service.py`. `none` is an exception, which rolls the
transaction back. Notifications are left out.
-/

namespace GigaPdf

inductive SharePermission
  | view | edit
deriving DecidableEq

inductive InvitationStatus
  | pending | accepted | declined | revoked | expired
deriving DecidableEq

inductive ShareStatus
  | active | revoked
deriving DecidableEq

structure ShareInvitation where
  id : Uuid
  documentId : Uuid
  inviterId : String
  inviteeEmail : String
  inviteeUserId : Option String
  token : String
  permission : SharePermission
  status : InvitationStatus
  expiresAt : Time
deriving DecidableEq

/-- `sharedWithUserId` is `none` for a public link. -/
structure DocumentShare where
  id : Uuid
  documentId : Uuid
  sharedWithUserId : Option String
  permission : SharePermission
  expiresAt : Option Time
  createdBy : String
  status : ShareStatus
  invitationId : Option Uuid
  revokedBy : Option String
deriving DecidableEq

structure Sharing where
  db : Db
  invitations : Table ShareInvitation.id
  shares : Table DocumentShare.id

/-- Any documents and accounts, and nothing shared yet. -/
def Sharing.start (db : Db) : Sharing := ⟨db, .empty, .empty⟩

namespace Sharing

/-- The rows that the duplicate check looks for: the address is compared as it is written. -/
def openInvitations (σ : Sharing) (documentId : Uuid) (inviteeEmail : String) :
    List ShareInvitation :=
  σ.invitations.rows.filter fun i =>
    i.documentId = documentId && i.inviteeEmail = inviteeEmail &&
      (i.status = .pending || i.status = .accepted)

def usersByEmail (σ : Sharing) (email : String) : List UserQuota :=
  σ.db.users.rows.filter fun q => q.email = some email

/-- Tokens are unique. -/
def findToken (σ : Sharing) (token : String) : Option ShareInvitation :=
  σ.invitations.rows.find? fun i => i.token = token

def addInvitation (σ : Sharing) (i : ShareInvitation) : Option Sharing :=
  if (σ.findToken i.token).isSome then none
  else (σ.invitations.insert? i).map fun invitations => { σ with invitations := invitations }

def addShare (σ : Sharing) (s : DocumentShare) : Option Sharing :=
  (σ.shares.insert? s).map fun shares => { σ with shares := shares }

/-- The share that an invitation turns into. -/
def shareOf (i : ShareInvitation) (shareId : Uuid) (userId : String) : DocumentShare where
  id := shareId
  documentId := i.documentId
  sharedWithUserId := some userId
  permission := i.permission
  expiresAt := none
  createdBy := i.inviterId
  status := .active
  invitationId := some i.id
  revokedBy := none

/-- An invitee who has an account gets the share at once. -/
def shareDocument (σ : Sharing) (documentId : Uuid) (inviterId inviteeEmail : String)
    (permission : SharePermission) (expiresInDays : Nat) (now : Time)
    (invitationId : Uuid) (token : String) (shareId : Uuid) : Option Sharing := do
  let _ ← σ.db.activeDocument documentId inviterId
  let existing ← scalarOneOrNone (σ.openInvitations documentId inviteeEmail)
  if existing.isSome then none
  else
    let user ← scalarOneOrNone (σ.usersByEmail inviteeEmail)
    let invitation : ShareInvitation :=
      { id := invitationId
        documentId := documentId
        inviterId := inviterId
        inviteeEmail := inviteeEmail
        inviteeUserId := user.map (·.userId)
        token := token
        permission := permission
        status := .pending
        expiresAt := now + days expiresInDays }
    match user with
    | none => σ.addInvitation invitation
    | some user =>
      let σ ← σ.addInvitation { invitation with status := .accepted }
      σ.addShare (shareOf invitation shareId user.userId)

/-- `lower` is `str.lower`. Nothing asks whether the user has a share already. -/
def acceptInvitation (lower : String → String) (σ : Sharing) (token userId userEmail : String)
    (now : Time) (shareId : Uuid) : Option Sharing :=
  match σ.findToken token with
  | none => none
  | some i =>
    if i.status ≠ .pending then none
    else if i.expiresAt < now then
      -- The expiry is committed before the exception.
      some
        { σ with
          invitations := σ.invitations.update i.id (fun i => { i with status := .expired })
            fun _ => rfl }
    else if lower i.inviteeEmail ≠ lower userEmail then none
    else
      let σ :=
        { σ with
          invitations := σ.invitations.update i.id
            (fun i => { i with status := .accepted, inviteeUserId := some userId }) fun _ => rfl }
      σ.addShare (shareOf i shareId userId)

/-- Whoever has the token may decline. -/
def declineInvitation (σ : Sharing) (token : String) : Option Sharing :=
  match σ.findToken token with
  | none => none
  | some i =>
    if i.status ≠ .pending then none
    else
      some
        { σ with
          invitations := σ.invitations.update i.id (fun i => { i with status := .declined })
            fun _ => rfl }

/-- The owner revokes a share, and with it its invitation. -/
def revokeShare (σ : Sharing) (shareId : Uuid) (revokerId : String) : Option Sharing := do
  let share ← σ.shares.find? shareId
  let _ ← (σ.db.documents.find? share.documentId).filter fun d => d.ownerId = revokerId
  if share.status = .revoked then none
  else
    some
      { σ with
        shares := σ.shares.update shareId
          (fun s => { s with status := .revoked, revokedBy := some revokerId }) fun _ => rfl
        invitations :=
          match share.invitationId with
          | some id => σ.invitations.update id (fun i => { i with status := .revoked }) fun _ => rfl
          | none => σ.invitations }

/-- The rest of the application changes documents and accounts; what was shared of a deleted
document goes with it (`ON DELETE CASCADE`). -/
def setDb (σ : Sharing) (db : Db) : Sharing where
  db := db
  invitations := σ.invitations.deleteWhere fun i => (db.documents.find? i.documentId).isNone
  shares := σ.shares.deleteWhere fun s => (db.documents.find? s.documentId).isNone

/-! ## Access -/

def activeShares (σ : Sharing) (documentId : Uuid) (userId : String) : List DocumentShare :=
  σ.shares.rows.filter fun s =>
    s.documentId = documentId && s.sharedWithUserId = some userId && s.status = .active

/-- The lookup of the guard: `none` when it raises. -/
def activeShareForUser (σ : Sharing) (documentId : Uuid) (userId : String) (now : Time) :
    Option (Option DocumentShare) :=
  (scalarOneOrNone (σ.activeShares documentId userId)).map fun share =>
    share.filter fun s => !s.expiresAt.any (· < now)

end Sharing

inductive AccessError
  | forbidden
  | multipleResults
deriving DecidableEq

inductive AccessDecision
  | ownership
  | directShare (permission : SharePermission)
deriving DecidableEq

def authorizeDocumentAccess (σ : Sharing) (document : Option StoredDocument) (userId : String)
    (now : Time) : Except AccessError AccessDecision :=
  match document with
  | none => .error .forbidden
  | some document =>
    if document.ownerId = userId then .ok .ownership
    else
      match σ.activeShareForUser document.id userId now with
      | none => .error .multipleResults
      | some none => .error .forbidden
      | some (some share) => .ok (.directShare share.permission)

/-- `noDirectShare` leaves the answer to the shares of organizations. -/
inductive AccessReport
  | documentNotFound
  | ownership
  | directShare (permission : SharePermission) (shareId : Uuid)
  | shareExpired
  | noDirectShare
deriving DecidableEq

/-- `none` when the lookup raises. -/
def checkAccess (σ : Sharing) (documentId : Uuid) (userId : String) (now : Time) :
    Option AccessReport :=
  match (σ.db.documents.find? documentId).filter fun d => !d.isDeleted with
  | none => some .documentNotFound
  | some document =>
    if document.ownerId = userId then some .ownership
    else
      (scalarOneOrNone (σ.activeShares documentId userId)).map fun
        | none => .noDirectShare
        | some share =>
          if share.expiresAt.any (· < now) then .shareExpired
          else .directShare share.permission share.id

/-! ## Runs -/

inductive SharingStep
  | shareDocument (documentId : Uuid) (inviterId inviteeEmail : String)
      (permission : SharePermission) (expiresInDays : Nat) (now : Time)
      (invitationId : Uuid) (token : String) (shareId : Uuid)
  | acceptInvitation (token userId userEmail : String) (now : Time) (shareId : Uuid)
  | declineInvitation (token : String)
  | revokeShare (shareId : Uuid) (revokerId : String)
  | setDb (db : Db)

def Sharing.step (lower : String → String) (σ : Sharing) : SharingStep → Option Sharing
  | .shareDocument documentId inviterId inviteeEmail permission expiresInDays now invitationId
      token shareId =>
    σ.shareDocument documentId inviterId inviteeEmail permission expiresInDays now invitationId
      token shareId
  | .acceptInvitation token userId userEmail now shareId =>
    σ.acceptInvitation lower token userId userEmail now shareId
  | .declineInvitation token => σ.declineInvitation token
  | .revokeShare shareId revokerId => σ.revokeShare shareId revokerId
  | .setDb db => some (σ.setDb db)

end GigaPdf
