import GigaPdf.Sharing.Uniqueness

/-!
# Public links

`create_public_link`, `revoke_public_link` and the resolution of a token, on the rows of
`document_shares` that carry a token. A call reads and then writes, and anything may happen in
between; `none` is an exception. A creation returns an active row whether or not it has expired,
and two creations that both read no row both write one.
-/

namespace GigaPdf

structure PublicLink where
  id : Uuid
  documentId : Uuid
  shareToken : String
  permission : SharePermission
  expiresAt : Option Time
  createdBy : String
  status : ShareStatus
  revokedAt : Option Time
  revokedBy : Option String
deriving DecidableEq

def PublicLink.expired (s : PublicLink) (now : Time) : Bool := s.expiresAt.any (· ≤ now)

/-- What a call has read and is going to write. -/
inductive LinkRequest
  | create (documentId : Uuid) (ownerId : String) (expiresInDays : Option Nat)
  | revoke (documentId : Uuid) (ownerId : String) (shareId : Uuid)
deriving DecidableEq

structure LinkCall where
  id : Nat
  request : LinkRequest

structure PublicSharing where
  db : Db
  links : Table PublicLink.id
  calls : Table LinkCall.id
  now : Time

/-- Any documents, and no link yet. -/
def PublicSharing.start (db : Db) (now : Time) : PublicSharing := ⟨db, .empty, .empty, now⟩

inductive PublicLinkError
  | notFound
  | expired
deriving DecidableEq

structure PublicDocument where
  documentName : String
  pageCount : Nat
  fileSizeBytes : Option Nat
  permission : SharePermission
deriving DecidableEq

namespace PublicSharing

def liveDocument (σ : PublicSharing) (documentId : Uuid) : Option StoredDocument :=
  (σ.db.documents.find? documentId).filter fun d => !d.isDeleted

def activeLinks (σ : PublicSharing) (documentId : Uuid) : List PublicLink :=
  σ.links.rows.filter fun s => s.documentId = documentId && s.status = .active

/-- The expiry is tested after the row is found. -/
def getActivePublicShare (σ : PublicSharing) (token : String) :
    Except PublicLinkError (PublicLink × StoredDocument) :=
  if token = "" then .error .notFound
  else
    let row := σ.links.rows.findSome? fun s =>
      if s.shareToken = token && s.status = .active then
        (σ.liveDocument s.documentId).map fun d => (s, d)
      else none
    match row with
    | none => .error .notFound
    | some (share, document) =>
      if share.expired σ.now then .error .expired else .ok (share, document)

def resolvePublicLink (σ : PublicSharing) (token : String) :
    Except PublicLinkError PublicDocument :=
  (σ.getActivePublicShare token).map fun (_, document) =>
    { documentName := document.name
      pageCount := document.pageCount
      fileSizeBytes := document.fileSizeBytes
      permission := .view }

/-- The reads of a creation: the row that it returns, if there is one. -/
def readForCreate (σ : PublicSharing) (documentId : Uuid) (ownerId : String) :
    Option (Option PublicLink) := do
  let _ ← σ.db.activeDocument documentId ownerId
  scalarOneOrNone (σ.activeLinks documentId)

/-- No days, as well as 0 days, is no expiry. -/
def newLink (σ : PublicSharing) (documentId : Uuid) (ownerId : String)
    (expiresInDays : Option Nat) (token : String) (shareId : Uuid) : PublicLink where
  id := shareId
  documentId := documentId
  shareToken := token
  permission := .view
  expiresAt := (expiresInDays.filter (· ≠ 0)).map fun n => σ.now + days n
  createdBy := ownerId
  status := .active
  revokedAt := none
  revokedBy := none

/-- Tokens are unique and not empty; the document's row may have gone. -/
def insertLink (σ : PublicSharing) (s : PublicLink) : Option PublicSharing :=
  if s.shareToken = "" ∨ (σ.links.rows.any (·.shareToken = s.shareToken)) = true ∨
      (σ.db.documents.find? s.documentId).isNone = true then
    none
  else (σ.links.insert? s).map fun links => { σ with links := links }

/-- The reads of a revocation: the row that it revokes. -/
def readForRevoke (σ : PublicSharing) (documentId : Uuid) (ownerId : String) :
    Option PublicLink := do
  let share ← (scalarOneOrNone (σ.activeLinks documentId)).join
  let _ ← (σ.db.documents.find? documentId).filter fun d => d.ownerId = ownerId
  some share

/-- The row is written by its key, whatever its status has become. -/
def revokeLink (σ : PublicSharing) (shareId : Uuid) (ownerId : String) : Option PublicSharing :=
  if (σ.links.find? shareId).isNone then none
  else
    some
      { σ with
        links := σ.links.update shareId (fun s =>
          { s with status := .revoked, revokedAt := some σ.now, revokedBy := some ownerId })
          fun _ => rfl }

def openCall (σ : PublicSharing) (call : Nat) (request : LinkRequest) : Option PublicSharing :=
  (σ.calls.insert? ⟨call, request⟩).map fun calls => { σ with calls := calls }

def closeCall (σ : PublicSharing) (call : Nat) : PublicSharing :=
  { σ with calls := σ.calls.deleteWhere fun c => c.id = call }

def request? (σ : PublicSharing) (call : Nat) : Option LinkRequest :=
  (σ.calls.find? call).map (·.request)

/-- The rest of the application changes documents; the links of a deleted one go with it
(`ON DELETE CASCADE`). -/
def setDb (σ : PublicSharing) (db : Db) : PublicSharing :=
  { σ with
    db := db
    links := σ.links.deleteWhere fun s => (db.documents.find? s.documentId).isNone }

end PublicSharing

inductive LinkStep
  | beginCreate (call : Nat) (documentId : Uuid) (ownerId : String) (expiresInDays : Option Nat)
  | finishCreate (call : Nat) (token : String) (shareId : Uuid)
  | beginRevoke (call : Nat) (documentId : Uuid) (ownerId : String)
  | finishRevoke (call : Nat)
  | abandon (call : Nat)
  | advance (seconds : Nat)
  | setDb (db : Db)

namespace PublicSharing

def step (σ : PublicSharing) : LinkStep → Option PublicSharing
  | .beginCreate call documentId ownerId expiresInDays =>
    match σ.readForCreate documentId ownerId with
    | none => none
    | some (some _) => some σ
    | some none => σ.openCall call (.create documentId ownerId expiresInDays)
  | .finishCreate call token shareId =>
    match σ.request? call with
    | some (.create documentId ownerId expiresInDays) =>
      (σ.closeCall call).insertLink
        (σ.newLink documentId ownerId expiresInDays token shareId)
    | _ => none
  | .beginRevoke call documentId ownerId => do
    let share ← σ.readForRevoke documentId ownerId
    σ.openCall call (.revoke documentId ownerId share.id)
  | .finishRevoke call =>
    match σ.request? call with
    | some (.revoke _ ownerId shareId) => (σ.closeCall call).revokeLink shareId ownerId
    | _ => none
  | .abandon call => some (σ.closeCall call)
  | .advance seconds => some { σ with now := σ.now + seconds }
  | .setDb db => some (σ.setDb db)

/-- The link that a creation inserts. -/
def inserts (σ : PublicSharing) : LinkStep → Option PublicLink
  | .finishCreate call token shareId =>
    match σ.request? call with
    | some (.create documentId ownerId expiresInDays) =>
      some (σ.newLink documentId ownerId expiresInDays token shareId)
    | _ => none
  | _ => none

/-- The link that a successful creation returns, an old one or a new one. -/
def returns (σ : PublicSharing) : LinkStep → Option PublicLink
  | .beginCreate _ documentId ownerId _ => (σ.readForCreate documentId ownerId).join
  | step => σ.inserts step

/-- The document whose link a revocation revokes, and the row that it has read. -/
def revokes (σ : PublicSharing) : LinkStep → Option (Uuid × Uuid)
  | .finishRevoke call =>
    match σ.request? call with
    | some (.revoke documentId _ shareId) => some (documentId, shareId)
    | _ => none
  | _ => none

end PublicSharing

/-- No creation returns a link that has expired, none inserts a link besides an active one, and no
revocation leaves another link that has not expired. -/
def soundStep (σ : PublicSharing) (step : LinkStep) : Prop :=
  (∀ s ∈ σ.returns step, s.expired σ.now = false) ∧
  (∀ s ∈ σ.inserts step, σ.activeLinks s.documentId = []) ∧
  ∀ target ∈ σ.revokes step, ∀ s ∈ σ.activeLinks target.1, s.id = target.2 ∨ s.expired σ.now = true

instance (σ : PublicSharing) (step : LinkStep) : Decidable (soundStep σ step) := by
  unfold soundStep
  infer_instance

end GigaPdf
