import GigaPdf.Models

/-!
# Collaboration

Sessions and element locks: `collaboration_service.py`. A lock is taken in two steps: what has been
read decides what is written later.
-/

namespace GigaPdf

structure CollaborationSession where
  id : Nat
  documentId : Uuid
  userId : String
  socketId : String
  isActive : Bool
  lastSeenAt : Time
deriving DecidableEq

structure ElementLock where
  id : Nat
  documentId : Uuid
  elementId : Uuid
  lockedByUserId : String
  lockedBySessionId : Nat
  expiresAt : Time
deriving DecidableEq

namespace ElementLock

def element (lock : ElementLock) : Uuid × Uuid := (lock.documentId, lock.elementId)

def extend (lock : ElementLock) (expiresAt : Time) : ElementLock := { lock with expiresAt }

@[simp] theorem element_extend (lock : ElementLock) (expiresAt : Time) :
    (lock.extend expiresAt).element = lock.element := rfl

end ElementLock

/-- The unique index of the locks is on their elements. The ids that have been generated are those
below `generated`. -/
structure Collaboration where
  now : Time
  sessions : Table CollaborationSession.id
  locks : Table ElementLock.element
  generated : Nat

def lockExpirationSeconds : Time := 300

/-- What `acquire_lock` has decided to write. -/
inductive LockPlan
  | refused
  | extend (lockId : Nat) (expiresAt : Time)
  | insert (lock : ElementLock) (expired : Option Nat)
deriving DecidableEq

namespace Collaboration

def start (now : Time) : Collaboration := ⟨now, .empty, .empty, 0⟩

/-! ## Sessions -/

def activeUsers (σ : Collaboration) (documentId : Uuid) : List CollaborationSession :=
  σ.sessions.rows.filter fun s => s.documentId = documentId && s.isActive

def insertSession (σ : Collaboration) (s : CollaborationSession) : Option Collaboration :=
  (σ.sessions.insert? s).map fun sessions =>
    { σ with sessions, generated := σ.generated + 1 }

/-- The active session of the user is taken over by the socket, or there is a new one. -/
def createSession (σ : Collaboration) (documentId : Uuid) (userId socketId : String) :
    Option (Collaboration × Nat) :=
  match scalarOneOrNone ((σ.activeUsers documentId).filter fun s => s.userId = userId) with
  | none => none
  | some (some existing) =>
    some ({ σ with
      sessions := σ.sessions.update existing.id
        (fun s => { s with socketId, lastSeenAt := σ.now }) fun _ => rfl }, existing.id)
  | some none =>
    (σ.insertSession
      { id := σ.generated
        documentId := documentId
        userId := userId
        socketId := socketId
        isActive := true
        lastSeenAt := σ.now }).map fun σ' => (σ', σ.generated)

/-- Whether or not they are active. -/
def socketSessions (σ : Collaboration) (socketId : String) : List CollaborationSession :=
  σ.sessions.rows.filter fun s => s.socketId = socketId

def idleSessions (σ : Collaboration) (timeoutMinutes : Nat) : List CollaborationSession :=
  σ.sessions.rows.filter fun s => s.isActive && s.lastSeenAt < σ.now - timeoutMinutes * 60

/-- The session is marked, and `_release_session_locks`. -/
def endSession (lastSeenAt : Time) (σ : Collaboration) (sessionId : Nat) : Collaboration :=
  { σ with
    sessions := σ.sessions.update sessionId
      (fun s => { s with isActive := false, lastSeenAt }) fun _ => rfl
    locks := σ.locks.deleteWhere fun l => l.lockedBySessionId = sessionId }

def endSessions (σ : Collaboration) (lastSeenAt : Time) (sessionIds : List Nat) : Collaboration :=
  sessionIds.foldl (endSession lastSeenAt) σ

/-- `none` when the query raises. -/
def removeSession (σ : Collaboration) (socketId : String) : Option (Collaboration × Option Nat) :=
  (scalarOneOrNone (σ.socketSessions socketId)).map fun
    | none => (σ, none)
    | some s => (σ.endSession σ.now s.id, some s.id)

/-! ## Locks -/

def deleteExpired (σ : Collaboration) (documentId : Option Uuid) (now : Time) : Collaboration :=
  { σ with
    locks := σ.locks.deleteWhere fun l =>
      documentId.all (fun d => l.documentId = d) && l.expiresAt ≤ now }

def releaseLock (σ : Collaboration) (documentId elementId : Uuid) (userId : String) :
    Collaboration :=
  { σ with
    locks := σ.locks.deleteWhere fun l =>
      l.documentId = documentId && l.elementId = elementId && l.lockedByUserId = userId }

/-- The first half of `acquire_lock`, which reads the clock after the row. -/
def planLock (σ : Collaboration) (now : Time) (documentId elementId : Uuid) (userId : String)
    (sessionId : Nat) (durationSeconds : Time) : LockPlan :=
  let new : ElementLock :=
    { id := σ.generated
      documentId := documentId
      elementId := elementId
      lockedByUserId := userId
      lockedBySessionId := sessionId
      expiresAt := now + durationSeconds }
  match σ.locks.find? (documentId, elementId) with
  | none => .insert new none
  | some existing =>
    if now < existing.expiresAt then
      if existing.lockedByUserId = userId then .extend existing.id (now + durationSeconds)
      else .refused
    else .insert new (some existing.id)

def generate (σ : Collaboration) : LockPlan → Collaboration
  | .insert _ _ => { σ with generated := σ.generated + 1 }
  | .refused | .extend _ _ => σ

/-- The statements of a flush, and the commit: `none` when one raises. A flush sends its insert
before its delete, so that an expired row which is still there stays in the way. -/
def commitLock (σ : Collaboration) : LockPlan → Option (Collaboration × Nat)
  | .refused => none
  | .extend lockId expiresAt =>
    -- A row that is gone makes the update fail.
    if (σ.locks.rows.any fun l => l.id = lockId) then
      some ({ σ with
        locks := σ.locks.updateWhere (fun l => l.id = lockId) (fun l => l.extend expiresAt)
          fun l => l.element_extend expiresAt }, lockId)
    else none
  | .insert lock expired =>
    (σ.locks.insert? lock).map fun locks =>
      ({ σ with locks := locks.deleteWhere fun l => expired = some l.id }, lock.id)

/-- The row that is reported after the commit. -/
def refreshLock (σ : Collaboration) (lockId : Nat) : Option ElementLock :=
  σ.locks.rows.find? fun l => l.id = lockId

/-- `acquire_lock` without interruption: `none` when it is refused or raises. -/
def acquireLock (σ : Collaboration) (documentId elementId : Uuid) (userId : String)
    (sessionId : Nat) (durationSeconds : Time) : Option (Collaboration × Nat) :=
  let plan := σ.planLock σ.now documentId elementId userId sessionId durationSeconds
  (σ.generate plan).commitLock plan

end Collaboration

end GigaPdf
