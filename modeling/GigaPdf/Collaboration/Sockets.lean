import GigaPdf.Lib.Runs
import GigaPdf.Collaboration.Service

/-!
# Sockets

The handlers of `websocket.py` that join and leave documents, lock and unlock elements. Each runs to
its end before the next.
-/

namespace GigaPdf

open Runs

/-- What the server keeps of a connection, and the session that its last join has returned. -/
structure Socket where
  sid : String
  userId : String
  documentId : Option Uuid
  sessionId : Option Nat
  connected : Bool
deriving DecidableEq

structure SocketServer where
  collaboration : Collaboration
  sockets : Table Socket.sid

inductive SocketStep
  | tick (now : Time)
  | connect (sid userId : String)
  /-- `authorized` is what `_authorize_document_join` answers. -/
  | join (sid : String) (documentId : Uuid) (authorized : Bool)
  | leave (sid : String)
  | lock (sid : String) (elementId : Uuid)
  | unlock (sid : String) (elementId : Uuid)
  | disconnect (sid : String)

namespace SocketServer

def start (now : Time) : SocketServer := ⟨.start now, .empty⟩

def socket? (σ : SocketServer) (sid : String) : Option Socket :=
  (σ.sockets.find? sid).filter (·.connected)

def setJoined (σ : SocketServer) (sid : String) (documentId : Option Uuid)
    (sessionId : Option Nat) : SocketServer :=
  { σ with sockets := σ.sockets.update sid (fun s => { s with documentId, sessionId }) fun _ => rfl }

/-- `_join_document_impl`. The document is noted before the session is created. -/
def joinDocument (σ : SocketServer) (s : Socket) (documentId : Uuid) : SocketServer :=
  match σ.collaboration.createSession documentId s.userId s.sid with
  | none => σ.setJoined s.sid (some documentId) none
  | some (c, sessionId) =>
    { σ.setJoined s.sid (some documentId) (some sessionId) with
      -- `get_document_locks` deletes the expired ones.
      collaboration := c.deleteExpired (some documentId) c.now }

/-- Nothing is removed when the query raises. -/
def removeSession (σ : SocketServer) (sid : String) : SocketServer :=
  match σ.collaboration.removeSession sid with
  | none => σ
  | some (c, _) => { σ with collaboration := c }

/-- `element_lock`: the error replies leave everything as it was. -/
def elementLock (σ : SocketServer) (s : Socket) (elementId : Uuid) : SocketServer :=
  let acquired : Option (Collaboration × Nat) := do
    let documentId ← s.documentId
    let session ← (σ.collaboration.activeUsers documentId).find? fun u => u.socketId = s.sid
    σ.collaboration.acquireLock documentId elementId s.userId session.id lockExpirationSeconds
  match acquired with
  | none => σ
  | some (c, _) => { σ with collaboration := c }

def elementUnlock (σ : SocketServer) (s : Socket) (elementId : Uuid) : SocketServer :=
  match s.documentId with
  | none => σ
  | some documentId =>
    { σ with collaboration := σ.collaboration.releaseLock documentId elementId s.userId }

def leaveDocument (σ : SocketServer) (s : Socket) : SocketServer :=
  match s.documentId with
  | none => σ
  | some _ => (σ.setJoined s.sid none none).removeSession s.sid

def setClosed (σ : SocketServer) (sid : String) : SocketServer :=
  { σ with
    sockets := σ.sockets.update sid (fun s => { s with connected := false }) fun _ => rfl }

/-- `disconnect`, after which the socket is gone. -/
def closeSocket (σ : SocketServer) (s : Socket) : SocketServer :=
  match s.documentId with
  | none => σ.setClosed s.sid
  | some _ => (σ.setClosed s.sid).removeSession s.sid

def step (σ : SocketServer) : SocketStep → Option SocketServer
  | .tick now =>
    if σ.collaboration.now ≤ now then
      some { σ with collaboration := { σ.collaboration with now } }
    else none
  | .connect sid userId =>
    (σ.sockets.insert? ⟨sid, userId, none, none, true⟩).map fun sockets => { σ with sockets }
  | .join sid documentId authorized =>
    (σ.socket? sid).map fun s =>
      if s.userId ≠ "" && authorized then σ.joinDocument s documentId else σ
  | .leave sid => (σ.socket? sid).map σ.leaveDocument
  | .lock sid elementId =>
    (σ.socket? sid).map fun s => if s.userId ≠ "" then σ.elementLock s elementId else σ
  | .unlock sid elementId =>
    (σ.socket? sid).map fun s => if s.userId ≠ "" then σ.elementUnlock s elementId else σ
  | .disconnect sid => (σ.socket? sid).map σ.closeSocket

/-- The sockets on which a user is in a document. -/
def tabs (σ : SocketServer) (userId : String) (documentId : Uuid) : List Socket :=
  σ.sockets.rows.filter fun t =>
    t.connected && t.userId = userId && t.documentId = some documentId

/-- Nobody else is in the document for the user, or someone has joined since. -/
def Leaving (σ : SocketServer) (sid : String) : Prop :=
  ∀ s ∈ σ.socket? sid, ∀ documentId ∈ s.documentId,
    (∀ t ∈ σ.tabs s.userId documentId, t = s) ∨ σ.collaboration.socketSessions sid = []

/-- A socket joins a document when it has joined no other, and none since it has left. -/
def SoundStep (σ : SocketServer) : SocketStep → Prop
  | .join sid documentId _ =>
    ∀ x ∈ σ.collaboration.socketSessions sid, x.isActive ∧ x.documentId = documentId
  | .leave sid | .disconnect sid => σ.Leaving sid
  | .tick _ | .connect _ _ | .lock _ _ | .unlock _ _ => True

instance (σ : SocketServer) (sid : String) : Decidable (σ.Leaving sid) := by
  unfold Leaving
  infer_instance

instance (σ : SocketServer) (a : SocketStep) : Decidable (σ.SoundStep a) := by
  cases a <;> unfold SoundStep <;> infer_instance

/-- The sessions and the locks of the other sockets stay as they are. -/
def Spares (σ : SocketServer) (sid : String) (σ' : SocketServer) : Prop :=
  ∀ t ∈ σ.sockets.rows, t.connected = true → t.sid ≠ sid → ∀ id ∈ t.sessionId,
    (∀ x ∈ σ.collaboration.sessions.rows, x.id = id → x ∈ σ'.collaboration.sessions.rows) ∧
    ∀ l ∈ σ.collaboration.locks.rows, l.lockedBySessionId = id → l ∈ σ'.collaboration.locks.rows

/-- A leave or a disconnect takes nothing from the other sockets. -/
def OwnOnly (σ : SocketServer) (a : SocketStep) (σ' : SocketServer) : Prop :=
  match a with
  | .leave sid | .disconnect sid => σ.Spares sid σ'
  | _ => True

/-- A socket that is connected has an active session, and nothing is left of users who are gone. -/
structure Attended (σ : SocketServer) : Prop where
  session : ∀ t ∈ σ.sockets.rows, t.connected = true → ∀ id ∈ t.sessionId,
    ∃ x ∈ σ.collaboration.sessions.rows, x.id = id ∧ x.isActive = true
  gone : ∀ userId, (∀ s ∈ σ.sockets.rows, s.userId = userId → s.connected = false) →
    (∀ x ∈ σ.collaboration.sessions.rows, x.userId = userId → x.isActive = false) ∧
    ∀ l ∈ σ.collaboration.locks.rows, l.lockedByUserId ≠ userId

/-! ## One socket for each session -/

structure Linked (σ : SocketServer) : Prop where
  sole : ∀ x ∈ σ.collaboration.sessions.rows, ∀ y ∈ σ.collaboration.sessions.rows,
    x.socketId = y.socketId → x = y
  socket : ∀ x ∈ σ.collaboration.sessions.rows, x.isActive = true →
    ∃ s ∈ σ.sockets.rows, s.sid = x.socketId ∧ s.connected = true ∧ s.userId = x.userId ∧
      s.documentId = some x.documentId
  session : ∀ t ∈ σ.sockets.rows, t.connected = true → ∀ id ∈ t.sessionId,
    ∃ x ∈ σ.collaboration.sessions.rows, x.id = id ∧ x.isActive = true ∧ x.userId = t.userId ∧
      t.documentId = some x.documentId
  lock : ∀ l ∈ σ.collaboration.locks.rows,
    ∃ x ∈ σ.collaboration.sessions.rows, x.id = l.lockedBySessionId ∧ x.isActive = true ∧
      x.userId = l.lockedByUserId

theorem Linked.attended {σ : SocketServer} (linked : Linked σ) : Attended σ := by
  refine ⟨fun t ht connected id mem => ?_, fun userId gone => ?_⟩
  · obtain ⟨x, hx, same, active, -, -⟩ := linked.session t ht connected id mem
    exact ⟨x, hx, same, active⟩
  · have inactive : ∀ x ∈ σ.collaboration.sessions.rows, x.userId = userId →
        x.isActive = false := by
      intro x hx user
      by_contra active
      obtain ⟨s, hs, -, connected, same, -⟩ := linked.socket x hx (by simpa using active)
      rw [gone s hs (same.trans user)] at connected
      cases connected
    refine ⟨inactive, fun l hl user => ?_⟩
    obtain ⟨x, hx, -, active, same⟩ := linked.lock l hl
    rw [inactive x hx (same.trans user)] at active
    cases active

theorem socket?_eq_some {σ : SocketServer} {sid : String} {s : Socket} :
    σ.socket? sid = some s ↔ s ∈ σ.sockets.rows ∧ s.sid = sid ∧ s.connected = true := by
  rw [socket?, Option.filter_eq_some_iff, Table.find?_eq_some, and_assoc]

theorem mem_socketSessions {c : Collaboration} {sid : String} {x : CollaborationSession} :
    x ∈ c.socketSessions sid ↔ x ∈ c.sessions.rows ∧ x.socketId = sid := by
  rw [Collaboration.socketSessions, List.mem_filter, decide_eq_true_iff]

section
variable {σ : SocketServer}

/-- The session of a socket belongs to the user of the socket. -/
theorem Linked.socket_eq (linked : Linked σ) {s : Socket} (hs : s ∈ σ.sockets.rows)
    {x : CollaborationSession} (hx : x ∈ σ.collaboration.sessions.rows)
    (active : x.isActive = true) (same : x.socketId = s.sid) :
    s.userId = x.userId ∧ s.documentId = some x.documentId := by
  obtain ⟨s', hs', sid, -, user, document⟩ := linked.socket x hx active
  rw [σ.sockets.eq_of_key_eq hs hs' (same.symm.trans sid.symm)]
  exact ⟨user, document⟩

/-- Steps that leave the sockets and the sessions as they are. -/
theorem Linked.of_locks (linked : Linked σ) {c : Collaboration}
    (sessions : c.sessions = σ.collaboration.sessions)
    (locks : ∀ l ∈ c.locks.rows,
      ∃ x ∈ c.sessions.rows, x.id = l.lockedBySessionId ∧ x.isActive = true ∧
        x.userId = l.lockedByUserId) :
    Linked { σ with collaboration := c } := by
  refine ⟨?_, ?_, ?_, locks⟩
  · rw [sessions]
    exact linked.sole
  · rw [sessions]
    exact linked.socket
  · rw [sessions]
    exact linked.session

theorem Linked.deleteLocks (linked : Linked σ) (p : ElementLock → Bool) :
    Linked { σ with collaboration :=
      { σ.collaboration with locks := σ.collaboration.locks.deleteWhere p } } :=
  linked.of_locks (c := { σ.collaboration with locks := σ.collaboration.locks.deleteWhere p }) rfl
    fun l hl => linked.lock l (Table.mem_deleteWhere.mp hl).1

/-! ### Leaving -/

/-- What `remove_session` finds when one session at most has the socket. -/
theorem removeSession_spec (sole : ∀ x ∈ σ.collaboration.sessions.rows,
    ∀ y ∈ σ.collaboration.sessions.rows, x.socketId = y.socketId → x = y) (sid : String) :
    (∀ x ∈ σ.collaboration.sessions.rows, x.socketId ≠ sid) ∧ σ.removeSession sid = σ ∨
    ∃ x ∈ σ.collaboration.sessions.rows, x.socketId = sid ∧ σ.removeSession sid =
      { σ with collaboration := σ.collaboration.endSession σ.collaboration.now x.id } := by
  have mem := @mem_socketSessions σ.collaboration sid
  have one : (σ.collaboration.socketSessions sid).length ≤ 1 := by
    refine length_le_one_of_unique ((List.Nodup.of_map _ σ.collaboration.sessions.unique).filter _)
      fun x hx y hy => ?_
    obtain ⟨hx, same⟩ := mem.mp hx
    obtain ⟨hy, same'⟩ := mem.mp hy
    exact sole x hx y hy (same.trans same'.symm)
  obtain ⟨found, result⟩ := Option.isSome_iff_exists.mp (scalarOneOrNone_isSome one)
  rw [removeSession, Collaboration.removeSession, result]
  cases found with
  | none =>
    refine Or.inl ⟨fun x hx same => ?_, rfl⟩
    have here := mem.mpr ⟨hx, same⟩
    rw [scalarOneOrNone_none result] at here
    cases here
  | some x =>
    obtain ⟨hx, same⟩ := mem.mp (scalarOneOrNone_some result)
    exact Or.inr ⟨x, hx, same, rfl⟩

/-- The socket of a user who is alone in a document does not share its session. -/
theorem Linked.not_shared (linked : Linked σ) {s t : Socket} {documentId : Uuid}
    (hs : s ∈ σ.sockets.rows) (alone : ∀ t ∈ σ.tabs s.userId documentId, t = s)
    (document : s.documentId = some documentId) {x : CollaborationSession}
    (hx : x ∈ σ.collaboration.sessions.rows) (own : x.socketId = s.sid)
    (ht : t ∈ σ.sockets.rows) (connected : t.connected = true) (other : t.sid ≠ s.sid) :
    t.sessionId ≠ some x.id := by
  intro shared
  obtain ⟨y, hy, same, active, user, document'⟩ := linked.session t ht connected x.id shared
  rw [σ.collaboration.sessions.eq_of_key_eq hy hx same] at active user document'
  obtain ⟨user', here⟩ := linked.socket_eq hs hx active own
  rw [document, Option.some.injEq] at here
  refine other (congrArg Socket.sid (alone t ?_))
  rw [tabs, List.mem_filter]
  simp [ht, connected, user', ← user, document', here]

theorem mem_endSession_of_ne {c : Collaboration} {now : Time} {id : Nat}
    {x : CollaborationSession} (hx : x ∈ c.sessions.rows) (other : x.id ≠ id) :
    x ∈ (c.endSession now id).sessions.rows :=
  (Table.mem_update_of_ne other).mpr hx

/-- The sockets after one of them has left its document or is gone. -/
structure Released (σ : SocketServer) (sid : String) (σ' : SocketServer) : Prop where
  same : σ'.collaboration = σ.collaboration
  others : ∀ t, t.sid ≠ sid → (t ∈ σ'.sockets.rows ↔ t ∈ σ.sockets.rows)
  own : ∀ t ∈ σ'.sockets.rows, t.sid = sid → t.connected = true → t.sessionId = none

theorem Released.setClosed (σ : SocketServer) (sid : String) :
    Released σ sid (σ.setClosed sid) := by
  refine ⟨rfl, fun t other => Table.mem_update_of_ne other, fun t ht here connected => ?_⟩
  rw [SocketServer.setClosed, Table.mem_update] at ht
  obtain ⟨s, hs, rfl⟩ := ht
  by_cases same : s.sid = sid
  · rw [if_pos same] at connected
    cases connected
  · rw [if_neg same] at here
    exact absurd here same

variable {σ' : SocketServer}

/-- A socket without an active session can go. -/
theorem Linked.release (linked : Linked σ) {sid : String} (released : Released σ sid σ')
    (free : ∀ x ∈ σ.collaboration.sessions.rows, x.isActive = true → x.socketId ≠ sid) :
    Linked σ' := by
  constructor
  case sole =>
    rw [released.same]
    exact linked.sole
  case socket =>
    rw [released.same]
    intro x hx active
    obtain ⟨s, hs, same, rest⟩ := linked.socket x hx active
    refine ⟨s, (released.others s ?_).mpr hs, same, rest⟩
    rw [same]
    exact free x hx active
  case session =>
    rw [released.same]
    intro t ht connected id mem
    by_cases here : t.sid = sid
    · rw [released.own t ht here connected] at mem
      cases mem
    · exact linked.session t ((released.others t here).mp ht) connected id mem
  case lock =>
    rw [released.same]
    exact linked.lock

/-- The session that a socket alone has ends with it. -/
theorem Linked.release_session (linked : Linked σ) {s : Socket} {documentId : Uuid}
    (hs : s ∈ σ.sockets.rows) (released : Released σ s.sid σ')
    (alone : ∀ t ∈ σ.tabs s.userId documentId, t = s)
    (document : s.documentId = some documentId) {x : CollaborationSession}
    (hx : x ∈ σ.collaboration.sessions.rows) (own : x.socketId = s.sid) (now : Time) :
    Linked { σ' with collaboration := σ.collaboration.endSession now x.id } := by
  have stays {y : CollaborationSession} (hy : y ∈ σ.collaboration.sessions.rows)
      (other : y.id ≠ x.id) :
      y ∈ (σ.collaboration.endSession now x.id).sessions.rows := mem_endSession_of_ne hy other
  constructor
  case sole =>
    intro y' hy' z' hz' same
    rw [Collaboration.endSession, Table.mem_update] at hy' hz'
    obtain ⟨y, hy, rfl⟩ := hy'
    obtain ⟨z, hz, rfl⟩ := hz'
    have equal : y = z := by
      refine linked.sole y hy z hz ?_
      split at same <;> split at same <;> exact same
    rw [equal]
  case socket =>
    intro y' hy' active
    rw [Collaboration.endSession, Table.mem_update] at hy'
    obtain ⟨y, hy, rfl⟩ := hy'
    by_cases ended : y.id = x.id
    · rw [if_pos ended] at active
      cases active
    · rw [if_neg ended] at active ⊢
      obtain ⟨t, ht, same, rest⟩ := linked.socket y hy active
      refine ⟨t, (released.others t fun here => ended ?_).mpr ht, same, rest⟩
      rw [linked.sole y hy x hx (same.symm.trans (here.trans own.symm))]
  case session =>
    intro t ht connected id mem
    by_cases here : t.sid = s.sid
    · rw [released.own t ht here connected] at mem
      cases mem
    · have there := (released.others t here).mp ht
      obtain ⟨y, hy, rfl, rest⟩ := linked.session t there connected id mem
      refine ⟨y, stays hy fun same => ?_, rfl, rest⟩
      rw [same] at mem
      exact linked.not_shared hs alone document hx own there connected here mem
  case lock =>
    intro l hl
    rw [Collaboration.endSession, Table.mem_deleteWhere, decide_eq_false_iff_not] at hl
    obtain ⟨y, hy, same, rest⟩ := linked.lock l hl.1
    exact ⟨y, stays hy (same ▸ hl.2), same, rest⟩

theorem Spares.of_eq {sid : String} (same : σ'.collaboration = σ.collaboration) :
    σ.Spares sid σ' := by
  intro t _ _ _ id _
  rw [same]
  exact ⟨fun x hx _ => hx, fun l hl _ => hl⟩

theorem removeSession_released (linked : Linked σ) {s : Socket} {documentId : Uuid}
    (hs : s ∈ σ.sockets.rows) (released : Released σ s.sid σ')
    (leaving : (∀ t ∈ σ.tabs s.userId documentId, t = s) ∨
      σ.collaboration.socketSessions s.sid = [])
    (document : s.documentId = some documentId) :
    Linked (σ'.removeSession s.sid) ∧ σ.Spares s.sid (σ'.removeSession s.sid) := by
  have sole := linked.sole
  rw [← released.same] at sole
  obtain ⟨none_left, unchanged⟩ | ⟨x, hx, own, ended⟩ := removeSession_spec sole s.sid
  · rw [released.same] at none_left
    rw [unchanged]
    exact ⟨linked.release released fun x hx _ => none_left x hx, Spares.of_eq released.same⟩
  · rw [released.same] at hx ended
    have alone : ∀ t ∈ σ.tabs s.userId documentId, t = s := by
      refine leaving.resolve_right fun empty => ?_
      have here := mem_socketSessions.mpr ⟨hx, own⟩
      rw [empty] at here
      cases here
    rw [ended]
    refine ⟨linked.release_session hs released alone document hx own _, ?_⟩
    intro t ht connected other id mem
    have unshared : id ≠ x.id := fun same =>
      linked.not_shared hs alone document hx own ht connected other (same ▸ mem)
    refine ⟨fun y hy same => mem_endSession_of_ne hy (same ▸ unshared), fun l hl same => ?_⟩
    rw [Collaboration.endSession, Table.mem_deleteWhere, decide_eq_false_iff_not]
    exact ⟨hl, same ▸ unshared⟩

/-! ### Joining -/

/-- The session that a join returns is that of the user in the document, and no other changes. -/
theorem createSession_spec {c c' : Collaboration} {documentId : Uuid} {userId sid : String}
    {id : Nat} (h : c.createSession documentId userId sid = some (c', id)) :
    c'.locks = c.locks ∧ ∃ x : CollaborationSession, x.id = id ∧ x.documentId = documentId ∧
      x.userId = userId ∧ x.socketId = sid ∧ x.isActive = true ∧
      (∀ y, y ∈ c'.sessions.rows ↔ y = x ∨ y ∈ c.sessions.rows ∧ y.id ≠ id) ∧
      ∀ y ∈ c.sessions.rows,
        y.id = id ↔ y.documentId = documentId ∧ y.isActive = true ∧ y.userId = userId := by
  have mem (y : CollaborationSession) :
      y ∈ (c.activeUsers documentId).filter (fun s => s.userId = userId) ↔
        y ∈ c.sessions.rows ∧ y.documentId = documentId ∧ y.isActive = true ∧
          y.userId = userId := by
    simp only [Collaboration.activeUsers, List.mem_filter, Bool.and_eq_true, decide_eq_true_iff,
      and_assoc]
  rw [Collaboration.createSession] at h
  split at h
  · cases h
  · rename_i e found
    cases h
    obtain ⟨he, document, active, user⟩ := (mem e).mp (scalarOneOrNone_some found)
    have at_key := Table.find?_eq_some.mpr ⟨he, rfl⟩
    refine ⟨rfl, { e with socketId := sid, lastSeenAt := c.now }, rfl, document, user, rfl, active,
      fun y => Table.mem_update_of_find? at_key (by exact fun _ => rfl),
      fun y hy => ⟨fun same => ?_, fun here => ?_⟩⟩
    · rw [c.sessions.eq_of_key_eq hy he same]
      exact ⟨document, active, user⟩
    · have listed := (mem y).mpr ⟨hy, here⟩
      rw [eq_toList_of_scalarOneOrNone found] at listed
      rw [List.mem_singleton.mp listed]
  · rename_i found
    obtain ⟨db, inserted, stored⟩ := Option.map_eq_some_iff.mp h
    cases stored
    obtain ⟨sessions, added, rfl⟩ := Option.map_eq_some_iff.mp inserted
    have free := Table.find?_eq_none.mp (Table.insert?_eq_some.mp added).1
    refine ⟨rfl, ⟨c.generated, documentId, userId, sid, true, c.now⟩, rfl, rfl, rfl, rfl, rfl,
      fun y => ?_, fun y hy => ⟨fun same => ?_, fun here => ?_⟩⟩
    · rw [Table.mem_insert? added]
      exact or_congr_right ⟨fun hy => ⟨hy, free y hy⟩, And.left⟩
    · exact absurd same (free y hy)
    · have listed := (mem y).mpr ⟨hy, here⟩
      rw [scalarOneOrNone_none found] at listed
      cases listed

theorem mem_setJoined {sid : String} {documentId : Option Uuid} {sessionId : Option Nat}
    {t : Socket} : t ∈ (σ.setJoined sid documentId sessionId).sockets.rows ↔
      ∃ s ∈ σ.sockets.rows, (if s.sid = sid then { s with documentId, sessionId } else s) = t := by
  rw [setJoined, Table.mem_update]

theorem mem_setJoined_of_ne {sid : String} {documentId : Option Uuid} {sessionId : Option Nat}
    {t : Socket} (other : t.sid ≠ sid) :
    t ∈ (σ.setJoined sid documentId sessionId).sockets.rows ↔ t ∈ σ.sockets.rows :=
  Table.mem_update_of_ne other

theorem eq_of_mem_setJoined {s t : Socket} (hs : s ∈ σ.sockets.rows) {documentId : Option Uuid}
    {sessionId : Option Nat} (ht : t ∈ (σ.setJoined s.sid documentId sessionId).sockets.rows)
    (here : t.sid = s.sid) : t = { s with documentId, sessionId } := by
  obtain ⟨u, hu, rfl⟩ := mem_setJoined.mp ht
  by_cases same : u.sid = s.sid
  · rw [if_pos same, σ.sockets.eq_of_key_eq hu hs same]
  · rw [if_neg same] at here
    exact absurd here same

theorem mem_setJoined_self {s : Socket} (hs : s ∈ σ.sockets.rows) (documentId : Option Uuid)
    (sessionId : Option Nat) :
    { s with documentId, sessionId } ∈ (σ.setJoined s.sid documentId sessionId).sockets.rows :=
  mem_setJoined.mpr ⟨s, hs, if_pos rfl⟩

section
variable {s : Socket} {documentId : Uuid}

/-- The socket is in the document, and no session has been written. -/
theorem Linked.join_refused (linked : Linked σ) (hs : s ∈ σ.sockets.rows)
    (connected : s.connected = true)
    (sound : ∀ x ∈ σ.collaboration.socketSessions s.sid,
      x.isActive = true ∧ x.documentId = documentId) :
    Linked (σ.setJoined s.sid (some documentId) none) := by
  constructor
  case sole => exact linked.sole
  case socket =>
    intro x hx active
    by_cases here : x.socketId = s.sid
    · have document := (sound x (mem_socketSessions.mpr ⟨hx, here⟩)).2
      refine ⟨_, mem_setJoined_self hs (some documentId) none, here.symm, connected,
        (linked.socket_eq hs hx active here).1, ?_⟩
      rw [document]
    · obtain ⟨t, ht, same, rest⟩ := linked.socket x hx active
      exact ⟨t, (mem_setJoined_of_ne (same ▸ here)).mpr ht, same, rest⟩
  case session =>
    intro t ht live id mem
    by_cases here : t.sid = s.sid
    · rw [eq_of_mem_setJoined hs ht here] at mem
      cases mem
    · exact linked.session t ((mem_setJoined_of_ne here).mp ht) live id mem
  case lock => exact linked.lock

/-- The socket has the session that it has been given, and no other. -/
theorem Linked.join_created (linked : Linked σ) (hs : s ∈ σ.sockets.rows)
    (connected : s.connected = true)
    (sound : ∀ x ∈ σ.collaboration.socketSessions s.sid,
      x.isActive = true ∧ x.documentId = documentId)
    {c : Collaboration} {sessionId : Nat}
    (created : σ.collaboration.createSession documentId s.userId s.sid = some (c, sessionId)) :
    Linked { σ.setJoined s.sid (some documentId) (some sessionId) with collaboration := c } := by
  obtain ⟨locks, x, rfl, document, user, own, active, rows, same_iff⟩ := createSession_spec created
  have replaced {y : CollaborationSession} (hy : y ∈ σ.collaboration.sessions.rows)
      (here : y.socketId = s.sid) : y.id = x.id := by
    obtain ⟨active_y, document_y⟩ := sound y (mem_socketSessions.mpr ⟨hy, here⟩)
    exact (same_iff y hy).mpr ⟨document_y, active_y, (linked.socket_eq hs hy active_y here).1.symm⟩
  have stays {y : CollaborationSession} (hy : y ∈ σ.collaboration.sessions.rows)
      (live : y.isActive = true) : ∃ z ∈ c.sessions.rows, z.id = y.id ∧ z.isActive = true ∧
        z.userId = y.userId ∧ z.documentId = y.documentId := by
    by_cases taken : y.id = x.id
    · obtain ⟨document_y, -, user_y⟩ := (same_iff y hy).mp taken
      exact ⟨x, (rows x).mpr (Or.inl rfl), taken.symm, active, user.trans user_y.symm,
        document.trans document_y.symm⟩
    · exact ⟨y, (rows y).mpr (Or.inr ⟨hy, taken⟩), rfl, live, rfl, rfl⟩
  constructor
  case sole =>
    intro y hy z hz same
    obtain rfl | ⟨old, other⟩ := (rows y).mp hy
    · obtain rfl | ⟨old, other⟩ := (rows z).mp hz
      · rfl
      · exact absurd (replaced old (same.symm.trans own)) other
    · obtain rfl | ⟨old', -⟩ := (rows z).mp hz
      · exact absurd (replaced old (same.trans own)) other
      · exact linked.sole y old z old' same
  case socket =>
    intro y hy live
    obtain rfl | ⟨old, other⟩ := (rows y).mp hy
    · exact ⟨_, mem_setJoined_self hs (some documentId) (some y.id), own.symm, connected,
        user.symm, congrArg some document.symm⟩
    · obtain ⟨t, ht, same, rest⟩ := linked.socket y old live
      refine ⟨t, (mem_setJoined_of_ne fun here => other ?_).mpr ht, same, rest⟩
      exact replaced old (same.symm.trans here)
  case session =>
    intro t ht live id mem
    by_cases here : t.sid = s.sid
    · rw [eq_of_mem_setJoined hs ht here] at mem ⊢
      refine ⟨x, (rows x).mpr (Or.inl rfl), Option.some.inj mem, active, user, ?_⟩
      exact congrArg some document.symm
    · obtain ⟨y, hy, rfl, live_y, user_y, document_y⟩ :=
        linked.session t ((mem_setJoined_of_ne here).mp ht) live id mem
      obtain ⟨z, hz, same, live_z, user_z, document_z⟩ := stays hy live_y
      refine ⟨z, hz, same, live_z, user_z.trans user_y, ?_⟩
      rw [document_y, document_z]
  case lock =>
    intro l hl
    rw [locks] at hl
    obtain ⟨y, hy, same, live_y, user_y⟩ := linked.lock l hl
    obtain ⟨z, hz, same', live_z, user_z, -⟩ := stays hy live_y
    exact ⟨z, hz, same'.trans same, live_z, user_z.trans user_y⟩

theorem Linked.joinDocument (linked : Linked σ) (hs : s ∈ σ.sockets.rows)
    (connected : s.connected = true)
    (sound : ∀ x ∈ σ.collaboration.socketSessions s.sid,
      x.isActive = true ∧ x.documentId = documentId) :
    Linked (σ.joinDocument s documentId) := by
  rw [SocketServer.joinDocument]
  cases created : σ.collaboration.createSession documentId s.userId s.sid with
  | none => exact linked.join_refused hs connected sound
  | some result =>
    exact (linked.join_created hs connected sound created).deleteLocks _

end

/-! ### Locking -/

theorem acquireLock_spec {c c' : Collaboration} {documentId elementId : Uuid} {userId : String}
    {sessionId : Nat} {durationSeconds : Time} {id : Nat}
    (h : c.acquireLock documentId elementId userId sessionId durationSeconds = some (c', id)) :
    c'.sessions = c.sessions ∧ ∀ l ∈ c'.locks.rows,
      l.lockedBySessionId = sessionId ∧ l.lockedByUserId = userId ∨
      ∃ l' ∈ c.locks.rows, l'.lockedBySessionId = l.lockedBySessionId ∧
        l'.lockedByUserId = l.lockedByUserId := by
  have inserted {lock : ElementLock} {expired : Option Nat}
      (session : lock.lockedBySessionId = sessionId) (user : lock.lockedByUserId = userId)
      (h : (c.generate (.insert lock expired)).commitLock (.insert lock expired) = some (c', id)) :
      c'.sessions = c.sessions ∧ ∀ l ∈ c'.locks.rows,
        l.lockedBySessionId = sessionId ∧ l.lockedByUserId = userId ∨
        ∃ l' ∈ c.locks.rows, l'.lockedBySessionId = l.lockedBySessionId ∧
          l'.lockedByUserId = l.lockedByUserId := by
    obtain ⟨locks, added, stored⟩ := Option.map_eq_some_iff.mp h
    cases stored
    refine ⟨rfl, fun l hl => ?_⟩
    obtain rfl | old := (Table.mem_insert? added).mp (Table.mem_deleteWhere.mp hl).1
    · exact Or.inl ⟨session, user⟩
    · exact Or.inr ⟨l, old, rfl, rfl⟩
  rw [Collaboration.acquireLock, Collaboration.planLock] at h
  split at h
  · exact inserted rfl rfl h
  · split at h
    · split at h
      · obtain ⟨-, stored⟩ := Option.ite_none_right_eq_some.mp h
        cases stored
        refine ⟨rfl, fun l hl => Or.inr ?_⟩
        obtain ⟨l', old, rfl⟩ := (Table.mem_updateWhere fun l => l.element_extend _).mp hl
        refine ⟨l', old, ?_⟩
        split <;> exact ⟨rfl, rfl⟩
      · cases h
    · exact inserted rfl rfl h

theorem Linked.elementLock (linked : Linked σ) {s : Socket} (hs : s ∈ σ.sockets.rows)
    (elementId : Uuid) : Linked (σ.elementLock s elementId) := by
  rw [SocketServer.elementLock]
  split
  · exact linked
  · rename_i c id acquired
    obtain ⟨documentId, -, acquired⟩ := Option.bind_eq_some_iff.mp acquired
    obtain ⟨x, found, acquired⟩ := Option.bind_eq_some_iff.mp acquired
    have own : x.socketId = s.sid := by simpa using List.find?_some found
    obtain ⟨hx, member⟩ := List.mem_filter.mp (List.mem_of_find?_eq_some found)
    have active : x.isActive = true := by simp at member; exact member.2
    obtain ⟨sessions, locks⟩ := acquireLock_spec acquired
    refine linked.of_locks sessions fun l hl => ?_
    rw [sessions]
    obtain ⟨session, user⟩ | ⟨l', hl', session, user⟩ := locks l hl
    · exact ⟨x, hx, session.symm, active, user ▸ (linked.socket_eq hs hx active own).1.symm⟩
    · rw [← session, ← user]
      exact linked.lock l' hl'

/-! ## Steps -/

theorem Linked.start (now : Time) : Linked (start now) := by
  constructor <;> intro x hx <;> cases hx

theorem Linked.step (linked : Linked σ) {a : SocketStep} (sound : σ.SoundStep a)
    (h : σ.step a = some σ') : Linked σ' ∧ σ.OwnOnly a σ' := by
  cases a with
  | tick now =>
    obtain ⟨-, h⟩ := Option.ite_none_right_eq_some.mp h
    cases h
    exact ⟨linked.of_locks rfl linked.lock, trivial⟩
  | connect sid userId =>
    obtain ⟨sockets, inserted, rfl⟩ := Option.map_eq_some_iff.mp h
    have rows (t : Socket) := Table.mem_insert? inserted (x := t)
    refine ⟨⟨linked.sole, fun x hx active => ?_, fun t ht connected id mem => ?_, linked.lock⟩,
      trivial⟩
    · obtain ⟨s, hs, rest⟩ := linked.socket x hx active
      exact ⟨s, (rows s).mpr (Or.inr hs), rest⟩
    · obtain rfl | old := (rows t).mp ht
      · cases mem
      · exact linked.session t old connected id mem
  | join sid documentId authorized =>
    obtain ⟨s, found, rfl⟩ := Option.map_eq_some_iff.mp h
    obtain ⟨hs, rfl, connected⟩ := socket?_eq_some.mp found
    refine ⟨?_, trivial⟩
    split
    · exact linked.joinDocument hs connected sound
    · exact linked
  | leave sid =>
    obtain ⟨s, found, rfl⟩ := Option.map_eq_some_iff.mp h
    obtain ⟨hs, rfl, connected⟩ := socket?_eq_some.mp found
    rw [OwnOnly, leaveDocument]
    cases document : s.documentId with
    | none => exact ⟨linked, .of_eq rfl⟩
    | some documentId =>
      refine removeSession_released linked hs ⟨rfl, fun t other => mem_setJoined_of_ne other, ?_⟩
        (sound s found documentId document) document
      intro t ht here _
      rw [eq_of_mem_setJoined hs ht here]
  | lock sid elementId =>
    obtain ⟨s, found, rfl⟩ := Option.map_eq_some_iff.mp h
    refine ⟨?_, trivial⟩
    split
    · exact linked.elementLock (socket?_eq_some.mp found).1 elementId
    · exact linked
  | unlock sid elementId =>
    obtain ⟨s, found, rfl⟩ := Option.map_eq_some_iff.mp h
    refine ⟨?_, trivial⟩
    split
    · rw [elementUnlock]
      split
      · exact linked
      · exact linked.deleteLocks _
    · exact linked
  | disconnect sid =>
    obtain ⟨s, found, rfl⟩ := Option.map_eq_some_iff.mp h
    obtain ⟨hs, rfl, connected⟩ := socket?_eq_some.mp found
    have released := Released.setClosed σ s.sid
    rw [OwnOnly, closeSocket]
    cases document : s.documentId with
    | none =>
      refine ⟨linked.release released fun x hx active own => ?_, .of_eq rfl⟩
      rw [(linked.socket_eq hs hx active own).2] at document
      cases document
    | some documentId =>
      exact removeSession_released linked hs released (sound s found documentId document) document

end

/-- While every socket joins one document, and only the last tab of a user to join it leaves it
alone, a socket that goes takes its own session and locks, and those of a user go with the last. -/
theorem sessions_end_with_sockets (now : Time) (σ : SocketServer)
    (run : Reaches step SoundStep (start now) σ) :
    Attended σ ∧ ∀ a σ', σ.SoundStep a → σ.step a = some σ' → σ.OwnOnly a σ' := by
  have linked : Linked σ :=
    run.invariant (fun _ _ _ linked sound h => (linked.step sound h).1) (Linked.start now)
  exact ⟨linked.attended, fun a σ' sound h => (linked.step sound h).2⟩

end SocketServer

/-- Ana locks a text in her second tab, after her first one has been taken over, and Bo in his. -/
def twoTabs : List SocketStep :=
  [.connect "a1" "ana", .connect "a2" "ana", .connect "b" "bo",
    .join "a1" (uuid "doc") true, .join "a2" (uuid "doc") true, .join "b" (uuid "doc") true,
    .lock "a2" (uuid "text"), .lock "b" (uuid "image")]

/-- Ana's first tab goes before her second one, and only then her lock does. -/
theorem sessions_end_with_sockets_in_turn : ∃ σ, SocketServer.Attended σ ∧
    (∀ a σ', σ.SoundStep a → σ.step a = some σ' → σ.OwnOnly a σ') ∧
    σ.collaboration.locks.rows.map (·.lockedByUserId) = ["bo"] ∧
    σ.collaboration.sessions.rows.map (fun x => (x.userId, x.isActive)) =
      [("bo", true), ("ana", false)] := by
  obtain ⟨σ, run, locks, sessions⟩ := exists_reaches_of_runAll SocketServer.step
    SocketServer.SoundStep (SocketServer.start 0)
    (twoTabs ++ [.disconnect "a1", .disconnect "a2"])
    (fun σ => σ.collaboration.locks.rows.map (·.lockedByUserId) = ["bo"] ∧
      σ.collaboration.sessions.rows.map (fun x => (x.userId, x.isActive)) =
        [("bo", true), ("ana", false)]) (by decide)
  obtain ⟨attended, own⟩ := SocketServer.sessions_end_with_sockets 0 σ run
  exact ⟨σ, attended, own, locks, sessions⟩

/-- The row of a session stays when the only socket has gone. A second tab takes the session and the
locks of the first one with it. A second document on a socket leaves both its sessions active. -/
theorem session_outlives_sockets :
    (∃ σ, Reaches SocketServer.step always (SocketServer.start 0) σ ∧
      σ.sockets.rows.map (·.connected) = [false] ∧
      σ.collaboration.sessions.rows.map (·.userId) = ["ana"]) ∧
    (∃ σ σ', Reaches SocketServer.step always (SocketServer.start 0) σ ∧
      σ.step (.disconnect "a2") = some σ' ∧ ¬σ.OwnOnly (.disconnect "a2") σ') ∧
    ∃ σ, Reaches SocketServer.step always (SocketServer.start 0) σ ∧
      σ.sockets.rows.map (·.connected) = [false] ∧
      σ.collaboration.sessions.rows.map (fun x => (x.userId, x.isActive)) =
        [("ana", true), ("ana", true)] ∧
      σ.collaboration.locks.rows.map (·.lockedByUserId) = ["ana"] := by
  refine ⟨?_, ?_, ?_⟩
  · exact exists_reaches_of_runAll SocketServer.step always (SocketServer.start 0)
      [.connect "a" "ana", .join "a" (uuid "doc") true, .disconnect "a"]
      (fun σ => σ.sockets.rows.map (·.connected) = [false] ∧
        σ.collaboration.sessions.rows.map (·.userId) = ["ana"]) (by decide)
  · obtain ⟨σ, run, step, stolen⟩ := exists_reaches_of_runAll SocketServer.step always
      (SocketServer.start 0) twoTabs
      (fun σ => (σ.step (.disconnect "a2")).isSome ∧
        ∃ t ∈ σ.sockets.rows, t.connected = true ∧ t.sid ≠ "a2" ∧ ∃ id ∈ t.sessionId,
          ∃ l ∈ σ.collaboration.locks.rows, l.lockedBySessionId = id ∧
            ∀ σ' ∈ σ.step (.disconnect "a2"), l ∉ σ'.collaboration.locks.rows) (by decide)
    obtain ⟨σ', step⟩ := Option.isSome_iff_exists.mp step
    obtain ⟨t, ht, connected, other, id, session, l, hl, same, gone⟩ := stolen
    exact ⟨σ, σ', run, step, fun own =>
      gone σ' step ((own t ht connected other id session).2 l hl same)⟩
  · exact exists_reaches_of_runAll SocketServer.step always (SocketServer.start 0)
      [.connect "a" "ana", .join "a" (uuid "doc") true, .lock "a" (uuid "text"),
        .join "a" (uuid "other") true, .disconnect "a"]
      (fun σ => σ.sockets.rows.map (·.connected) = [false] ∧
        σ.collaboration.sessions.rows.map (fun x => (x.userId, x.isActive)) =
          [("ana", true), ("ana", true)] ∧
        σ.collaboration.locks.rows.map (·.lockedByUserId) = ["ana"]) (by decide)

end GigaPdf
