import Mathlib.Logic.Function.Basic
import GigaPdf.Lib.Runs
import GigaPdf.Collaboration.Service

/-!
# Concurrent locks

Calls that take locks, release them and clean up, each split where it waits for the database. What
one call has read may have changed when it writes.
-/

namespace GigaPdf

open Runs

/-- Where a call stands. -/
inductive LockCall
  | planned (userId : String) (plan : LockPlan)
  | written (userId : String) (lockId : Nat)
  | acquired (userId : String) (lock : ElementLock)
  | ending (lastSeenAt : Time) (sessionIds : List Nat)
  | done
deriving DecidableEq

/-- The database, and the calls in the order in which they have read. -/
structure LockRun where
  db : Collaboration
  calls : List LockCall

inductive LockStep
  | tick (now : Time)
  | createSession (documentId : Uuid) (userId socketId : String)
  /-- `acquire_lock` reads a row, and then the clock. -/
  | acquire (now : Time) (documentId elementId : Uuid) (userId : String) (sessionId : Nat)
      (durationSeconds : Time)
  /-- It writes and commits. -/
  | commit (call : Nat)
  /-- It reads back what it reports. -/
  | refresh (call : Nat)
  | release (documentId elementId : Uuid) (userId : String)
  /-- The deletion goes by a clock that may have been read before. -/
  | deleteExpired (documentId : Option Uuid) (now : Time)
  /-- `remove_session` reads. -/
  | closeSocket (socketId : String)
  /-- `cleanup_inactive_sessions` reads. -/
  | selectIdle (timeoutMinutes : Nat)
  /-- The sessions that have been read are ended. -/
  | endSessions (call : Nat)

namespace LockRun

def setCall (r : LockRun) (n : Nat) (call : LockCall) (db : Collaboration) : LockRun :=
  ⟨db, r.calls.set n call⟩

def step (r : LockRun) : LockStep → Option LockRun
  | .tick now => if r.db.now ≤ now then some { r with db := { r.db with now } } else none
  | .createSession documentId userId socketId =>
    (r.db.createSession documentId userId socketId).map fun created => { r with db := created.1 }
  | .acquire now documentId elementId userId sessionId durationSeconds =>
    let plan := r.db.planLock now documentId elementId userId sessionId durationSeconds
    if r.db.now ≤ now then some ⟨r.db.generate plan, r.calls ++ [.planned userId plan]⟩ else none
  | .commit n =>
    match r.calls[n]? with
    | some (.planned userId plan) =>
      match r.db.commitLock plan with
      | some (db, lockId) => some (r.setCall n (.written userId lockId) db)
      | none => some (r.setCall n .done r.db)
    | _ => none
  | .refresh n =>
    match r.calls[n]? with
    | some (.written userId lockId) =>
      match r.db.refreshLock lockId with
      | some lock => some (r.setCall n (.acquired userId lock) r.db)
      | none => some (r.setCall n .done r.db)
    | _ => none
  | .release documentId elementId userId =>
    some { r with db := r.db.releaseLock documentId elementId userId }
  | .deleteExpired documentId now =>
    if now ≤ r.db.now then some { r with db := r.db.deleteExpired documentId now } else none
  | .closeSocket socketId =>
    match scalarOneOrNone (r.db.socketSessions socketId) with
    | some (some s) => some { r with calls := r.calls ++ [.ending r.db.now [s.id]] }
    | some none | none => some r
  | .selectIdle timeoutMinutes =>
    let idle := (r.db.idleSessions timeoutMinutes).map (·.id)
    some { r with calls := r.calls ++ [.ending r.db.now idle] }
  | .endSessions n =>
    match r.calls[n]? with
    | some (.ending lastSeenAt sessionIds) =>
      some (r.setCall n .done (r.db.endSessions lastSeenAt sessionIds))
    | _ => none

/-- What a step can do. -/
inductive Moves (r : LockRun) : LockStep → LockRun → Prop
  | tick {now} (later : r.db.now ≤ now) : Moves r (.tick now) { r with db := { r.db with now } }
  | createSession {documentId userId socketId created}
      (made : r.db.createSession documentId userId socketId = some created) :
      Moves r (.createSession documentId userId socketId) { r with db := created.1 }
  | acquire {now documentId elementId userId sessionId durationSeconds plan}
      (planned :
        r.db.planLock now documentId elementId userId sessionId durationSeconds = plan) :
      Moves r (.acquire now documentId elementId userId sessionId durationSeconds)
        ⟨r.db.generate plan, r.calls ++ [.planned userId plan]⟩
  | commit {n userId plan db lockId} (call : r.calls[n]? = some (.planned userId plan))
      (written : r.db.commitLock plan = some (db, lockId)) :
      Moves r (.commit n) (r.setCall n (.written userId lockId) db)
  | notCommitted {n} : Moves r (.commit n) (r.setCall n .done r.db)
  | refresh {n userId lockId lock} (call : r.calls[n]? = some (.written userId lockId))
      (found : r.db.refreshLock lockId = some lock) :
      Moves r (.refresh n) (r.setCall n (.acquired userId lock) r.db)
  | notRefreshed {n} : Moves r (.refresh n) (r.setCall n .done r.db)
  | release {documentId elementId userId} : Moves r (.release documentId elementId userId)
      { r with db := r.db.releaseLock documentId elementId userId }
  | deleteExpired {documentId now} (past : now ≤ r.db.now) :
      Moves r (.deleteExpired documentId now) { r with db := r.db.deleteExpired documentId now }
  | closeSocket {socketId s}
      (found : scalarOneOrNone (r.db.socketSessions socketId) = some (some s)) :
      Moves r (.closeSocket socketId) { r with calls := r.calls ++ [.ending r.db.now [s.id]] }
  | noSession {socketId} : Moves r (.closeSocket socketId) r
  | selectIdle {timeoutMinutes} : Moves r (.selectIdle timeoutMinutes)
      { r with calls :=
        r.calls ++ [.ending r.db.now ((r.db.idleSessions timeoutMinutes).map (·.id))] }
  | endSessions {n lastSeenAt sessionIds}
      (call : r.calls[n]? = some (.ending lastSeenAt sessionIds)) :
      Moves r (.endSessions n) (r.setCall n .done (r.db.endSessions lastSeenAt sessionIds))

theorem step_cases {r r' : LockRun} {a : LockStep} (h : r.step a = some r') : Moves r a r' := by
  cases a with
  | tick now =>
    obtain ⟨later, h⟩ := Option.ite_none_right_eq_some.mp h
    cases h
    exact .tick later
  | createSession documentId userId socketId =>
    obtain ⟨created, made, rfl⟩ := Option.map_eq_some_iff.mp h
    exact .createSession made
  | acquire now documentId elementId userId sessionId durationSeconds =>
    obtain ⟨-, h⟩ := Option.ite_none_right_eq_some.mp h
    cases h
    exact .acquire rfl
  | commit n =>
    rw [step] at h
    split at h
    · next userId plan call =>
      split at h
      · next db lockId written =>
        cases h
        exact .commit call written
      · cases h
        exact .notCommitted
    · cases h
  | refresh n =>
    rw [step] at h
    split at h
    · next userId lockId call =>
      split at h
      · next lock found =>
        cases h
        exact .refresh call found
      · cases h
        exact .notRefreshed
    · cases h
  | release documentId elementId userId =>
    cases h
    exact .release
  | deleteExpired documentId now =>
    obtain ⟨past, h⟩ := Option.ite_none_right_eq_some.mp h
    cases h
    exact .deleteExpired past
  | closeSocket socketId =>
    rw [step] at h
    split at h
    · next s found =>
      cases h
      exact .closeSocket found
    · cases h
      exact .noSession
    · cases h
      exact .noSession
  | selectIdle timeoutMinutes =>
    cases h
    exact .selectIdle
  | endSessions n =>
    rw [step] at h
    split at h
    · next call =>
      cases h
      exact .endSessions call
    · cases h

def start (now : Time) : LockRun := ⟨.start now, []⟩

/-- The user for whom a step writes. -/
def actor (r : LockRun) : LockStep → Option String
  | .release _ _ userId => some userId
  | .commit n =>
    match r.calls[n]? with
    | some (.planned userId _) => some userId
    | _ => none
  | _ => none

def SessionEnded (db : Collaboration) (sessionId : Nat) : Prop :=
  ∃ s ∈ db.sessions.rows, s.id = sessionId ∧ s.isActive = false

/-- One user at most has an unexpired lock on an element. -/
def Exclusive (r : LockRun) : Prop :=
  ∀ l ∈ r.db.locks.rows, ∀ l' ∈ r.db.locks.rows, l.element = l'.element →
    r.db.now < l.expiresAt → r.db.now < l'.expiresAt → l.lockedByUserId = l'.lockedByUserId

/-- An acquire that reports success is for the user of the row. -/
def Truthful (r : LockRun) : Prop :=
  ∀ userId lock, .acquired userId lock ∈ r.calls → lock.lockedByUserId = userId

/-- A step of someone else leaves a lock as it is, unless its session has ended or it has expired. -/
def Rightful (r : LockRun) (a : LockStep) (r' : LockRun) : Prop :=
  ∀ l ∈ r.db.locks.rows, l ∈ r'.db.locks.rows ∨ r.actor a = some l.lockedByUserId ∨
    SessionEnded r'.db l.lockedBySessionId ∨ l.expiresAt ≤ r.db.now

/-! ## What the calls keep -/

/-- What never changes of the lock with an id. -/
structure LockOrigin where
  element : Uuid × Uuid
  userId : String

/-- What is known of a call, when every id is that of one lock. -/
def CallKept (made : Nat → Option LockOrigin) (db : Collaboration) : LockCall → Prop
  | .planned userId (.extend lockId _) => ∃ element, made lockId = some ⟨element, userId⟩
  | .planned userId (.insert lock expired) =>
    lock.lockedByUserId = userId ∧ made lock.id = some ⟨lock.element, userId⟩ ∧
      ∀ old ∈ expired, ∃ holder, made old = some ⟨lock.element, holder⟩
  | .written userId lockId => ∃ element, made lockId = some ⟨element, userId⟩
  | .acquired userId lock => lock.lockedByUserId = userId
  | .ending _ sessionIds => ∀ id ∈ sessionIds, ∃ s ∈ db.sessions.rows, s.id = id
  | .planned _ .refused | .done => True

structure KeepsWith (made : Nat → Option LockOrigin) (r : LockRun) : Prop where
  fresh : ∀ n, r.db.generated ≤ n → made n = none
  locks : ∀ l ∈ r.db.locks.rows, made l.id = some ⟨l.element, l.lockedByUserId⟩
  calls : ∀ call ∈ r.calls, CallKept made r.db call

def Keeps (r : LockRun) : Prop := ∃ made, KeepsWith made r

/-- The sessions that were there are there. -/
def SessionsStay (db db' : Collaboration) : Prop :=
  ∀ s ∈ db.sessions.rows, ∃ s' ∈ db'.sessions.rows, s'.id = s.id

theorem SessionsStay.of_eq {db db' : Collaboration} (same : db'.sessions = db.sessions) :
    SessionsStay db db' := by
  intro s hs
  exact ⟨s, same ▸ hs, rfl⟩

theorem CallKept.mono {made made' : Nat → Option LockOrigin} {db db' : Collaboration}
    (grows : ∀ n origin, made n = some origin → made' n = some origin)
    (stay : SessionsStay db db') {call : LockCall} (kept : CallKept made db call) :
    CallKept made' db' call := by
  cases call with
  | planned userId plan =>
    cases plan with
    | refused => trivial
    | extend lockId expiresAt =>
      obtain ⟨element, h⟩ := kept
      exact ⟨element, grows _ _ h⟩
    | insert lock expired =>
      obtain ⟨user, origin, old⟩ := kept
      refine ⟨user, grows _ _ origin, fun id mem => ?_⟩
      obtain ⟨holder, h⟩ := old id mem
      exact ⟨holder, grows _ _ h⟩
  | written userId lockId =>
    obtain ⟨element, h⟩ := kept
    exact ⟨element, grows _ _ h⟩
  | acquired => exact kept
  | ending lastSeenAt sessionIds =>
    intro id mem
    obtain ⟨s, hs, rfl⟩ := kept id mem
    exact stay s hs
  | done => trivial

section
variable {made : Nat → Option LockOrigin} {r : LockRun}

/-- A step that takes locks away, and changes sessions. -/
theorem KeepsWith.shrink (keeps : KeepsWith made r) (db : Collaboration)
    (generated : r.db.generated ≤ db.generated)
    (locks : ∀ l ∈ db.locks.rows, l ∈ r.db.locks.rows) (stay : SessionsStay r.db db)
    {calls : List LockCall} (kept : ∀ call ∈ calls, CallKept made r.db call) :
    KeepsWith made ⟨db, calls⟩ :=
  ⟨fun n bound => keeps.fresh n (Nat.le_trans generated bound),
    fun l hl => keeps.locks l (locks l hl),
    fun call mem => (kept call mem).mono (fun _ _ h => h) stay⟩

theorem KeepsWith.deleteWhere (keeps : KeepsWith made r) (p : ElementLock → Bool) :
    KeepsWith made { r with db := { r.db with locks := r.db.locks.deleteWhere p } } :=
  keeps.shrink { r.db with locks := r.db.locks.deleteWhere p } (Nat.le_refl _)
    (fun _ hl => (Table.mem_deleteWhere.mp hl).1) (.of_eq rfl) keeps.calls

theorem KeepsWith.calls_set (keeps : KeepsWith made r) (n : Nat) {call : LockCall}
    (kept : CallKept made r.db call) : ∀ c ∈ r.calls.set n call, CallKept made r.db c := by
  intro c mem
  obtain old | rfl := List.mem_or_eq_of_mem_set mem
  · exact keeps.calls c old
  · exact kept

theorem KeepsWith.calls_append (keeps : KeepsWith made r) {call : LockCall}
    (kept : CallKept made r.db call) : ∀ c ∈ r.calls ++ [call], CallKept made r.db c := by
  intro c mem
  obtain old | new := List.mem_append.mp mem
  · exact keeps.calls c old
  · rw [List.mem_singleton.mp new]
    exact kept

end

/-! ### Sessions -/

theorem createSession_spec {db : Collaboration} {documentId : Uuid} {userId socketId : String}
    {created : Collaboration × Nat}
    (h : db.createSession documentId userId socketId = some created) :
    created.1.locks = db.locks ∧ db.generated ≤ created.1.generated ∧
      SessionsStay db created.1 := by
  rw [Collaboration.createSession] at h
  split at h
  · cases h
  · cases h
    refine ⟨rfl, Nat.le_refl _, fun s hs => ?_⟩
    refine ⟨_, Table.mem_update_of_mem hs, ?_⟩
    split <;> rfl
  · obtain ⟨db', inserted, rfl⟩ := Option.map_eq_some_iff.mp h
    obtain ⟨sessions, added, rfl⟩ := Option.map_eq_some_iff.mp inserted
    exact ⟨rfl, Nat.le_succ _, fun s hs => ⟨s, (Table.mem_insert? added).mpr (Or.inr hs), rfl⟩⟩

section
variable (seen : Time)

theorem mem_endSession_locks {db : Collaboration} {id : Nat} {l : ElementLock} :
    l ∈ (db.endSession seen id).locks.rows ↔ l ∈ db.locks.rows ∧ l.lockedBySessionId ≠ id := by
  rw [Collaboration.endSession, Table.mem_deleteWhere, decide_eq_false_iff_not]

theorem endSession_stay (db : Collaboration) (id : Nat) :
    SessionsStay db (db.endSession seen id) := by
  intro s hs
  refine ⟨_, Table.mem_update_of_mem hs, ?_⟩
  split <;> rfl

theorem SessionEnded.endSession {db : Collaboration} {id other : Nat}
    (ended : SessionEnded db other) : SessionEnded (db.endSession seen id) other := by
  obtain ⟨s, hs, same, inactive⟩ := ended
  refine ⟨_, Table.mem_update_of_mem hs, ?_⟩
  split
  · exact ⟨same, rfl⟩
  · exact ⟨same, inactive⟩

theorem sessionEnded_endSession {db : Collaboration} {s : CollaborationSession}
    (mem : s ∈ db.sessions.rows) : SessionEnded (db.endSession seen s.id) s.id := by
  refine ⟨_, Table.mem_update_of_mem mem, ?_⟩
  rw [if_pos rfl]
  exact ⟨rfl, rfl⟩

/-- What is deleted was locked by a session that has been ended. -/
theorem endSessions_spec (sessionIds : List Nat) (db : Collaboration)
    (there : ∀ id ∈ sessionIds, ∃ s ∈ db.sessions.rows, s.id = id) :
    (db.endSessions seen sessionIds).generated = db.generated ∧
    SessionsStay db (db.endSessions seen sessionIds) ∧
    (∀ id, SessionEnded db id → SessionEnded (db.endSessions seen sessionIds) id) ∧
    (∀ l ∈ (db.endSessions seen sessionIds).locks.rows, l ∈ db.locks.rows) ∧
    ∀ l ∈ db.locks.rows, l ∈ (db.endSessions seen sessionIds).locks.rows ∨
      SessionEnded (db.endSessions seen sessionIds) l.lockedBySessionId := by
  induction sessionIds generalizing db with
  | nil => exact ⟨rfl, .of_eq rfl, fun _ h => h, fun l hl => hl, fun l hl => Or.inl hl⟩
  | cons id rest ih =>
    have stay := endSession_stay seen db id
    obtain ⟨generated, rest_stay, ended, sub, deleted⟩ := ih (db.endSession seen id) (by
      intro other mem
      obtain ⟨s, hs, rfl⟩ := there other (List.mem_cons_of_mem _ mem)
      exact stay s hs)
    change _ ∧ SessionsStay db ((db.endSession seen id).endSessions seen rest) ∧ _
    refine ⟨generated, fun s hs => ?_, fun other h => ended other (h.endSession seen),
      fun l hl => ((mem_endSession_locks seen).mp (sub l hl)).1, fun l hl => ?_⟩
    · obtain ⟨s', hs', same⟩ := stay s hs
      obtain ⟨s'', hs'', same'⟩ := rest_stay s' hs'
      exact ⟨s'', hs'', same'.trans same⟩
    · by_cases here : l.lockedBySessionId = id
      · obtain ⟨s, hs, rfl⟩ := there id (List.mem_cons_self ..)
        rw [here]
        exact Or.inr (ended _ (sessionEnded_endSession seen hs))
      · exact deleted l ((mem_endSession_locks seen).mpr ⟨hl, here⟩)

end

theorem Keeps.start (now : Time) : Keeps (start now) := by
  refine ⟨fun _ => none, ⟨fun _ _ => rfl, ?_, ?_⟩⟩
  · intro l hl
    cases hl
  · intro call mem
    cases mem

/-! ### Acquiring -/

/-- What a user plans for what has been read. -/
def PlanFor (db : Collaboration) (userId : String) : LockPlan → Prop
  | .refused => True
  | .extend lockId _ => ∃ l ∈ db.locks.rows, l.id = lockId ∧ l.lockedByUserId = userId
  | .insert lock expired =>
    lock.id = db.generated ∧ lock.lockedByUserId = userId ∧
      ∀ old ∈ expired, ∃ l ∈ db.locks.rows, l.id = old ∧ l.element = lock.element

theorem planLock_planFor (db : Collaboration) (now : Time) (documentId elementId : Uuid)
    (userId : String) (sessionId : Nat) (durationSeconds : Time) :
    PlanFor db userId
      (db.planLock now documentId elementId userId sessionId durationSeconds) := by
  rw [Collaboration.planLock]
  cases found : db.locks.find? (documentId, elementId) with
  | none => exact ⟨rfl, rfl, nofun⟩
  | some existing =>
    obtain ⟨there, here⟩ := Table.find?_eq_some.mp found
    dsimp only
    by_cases valid : now < existing.expiresAt
    · rw [if_pos valid]
      by_cases own : existing.lockedByUserId = userId
      · rw [if_pos own]
        exact ⟨existing, there, rfl, own⟩
      · rw [if_neg own]
        trivial
    · rw [if_neg valid]
      refine ⟨rfl, rfl, fun old mem => ?_⟩
      rw [Option.mem_some_iff] at mem
      exact ⟨existing, there, mem, here⟩

/-- The next id becomes that of a new lock. -/
theorem Keeps.plan {r : LockRun} (keeps : Keeps r) {userId : String} {plan : LockPlan}
    (planned : PlanFor r.db userId plan) :
    Keeps ⟨r.db.generate plan, r.calls ++ [.planned userId plan]⟩ := by
  obtain ⟨made, keeps⟩ := keeps
  cases plan with
  | refused =>
    exact ⟨made, keeps.fresh, keeps.locks, keeps.calls_append trivial⟩
  | extend lockId expiresAt =>
    obtain ⟨l, hl, rfl, own⟩ := planned
    have origin := keeps.locks l hl
    rw [own] at origin
    exact ⟨made, keeps.fresh, keeps.locks, keeps.calls_append ⟨l.element, origin⟩⟩
  | insert lock expired =>
    obtain ⟨id, user, old⟩ := planned
    have unused : made r.db.generated = none := keeps.fresh _ (Nat.le_refl _)
    have grows : ∀ n origin, made n = some origin →
        Function.update made r.db.generated (some ⟨lock.element, userId⟩) n = some origin := by
      intro n origin h
      rw [Function.update_of_ne, h]
      rintro rfl
      rw [unused] at h
      cases h
    refine ⟨Function.update made r.db.generated (some ⟨lock.element, userId⟩), ⟨?_, ?_, ?_⟩⟩
    · intro n bound
      rw [Function.update_of_ne (Nat.ne_of_gt bound), keeps.fresh n (Nat.le_of_succ_le bound)]
    · intro l hl
      exact grows _ _ (keeps.locks l hl)
    · intro call mem
      obtain before | new := List.mem_append.mp mem
      · exact (keeps.calls call before).mono grows (.of_eq rfl)
      · rw [List.mem_singleton.mp new]
        refine ⟨user, ?_, fun id mem => ?_⟩
        · rw [id, Function.update_self]
        · obtain ⟨l, hl, rfl, same⟩ := old id mem
          refine ⟨l.lockedByUserId, grows _ _ ?_⟩
          rw [← same]
          exact keeps.locks l hl

/-- What a commit does: the locks of others are as they were. -/
theorem KeepsWith.commit {made : Nat → Option LockOrigin} {r : LockRun} (keeps : KeepsWith made r)
    {userId : String} {plan : LockPlan} (planned : CallKept made r.db (.planned userId plan))
    {db : Collaboration} {lockId : Nat} (h : r.db.commitLock plan = some (db, lockId)) :
    db.sessions = r.db.sessions ∧ db.generated = r.db.generated ∧
      (∃ element, made lockId = some ⟨element, userId⟩) ∧
      (∀ l ∈ db.locks.rows, made l.id = some ⟨l.element, l.lockedByUserId⟩) ∧
      ∀ l ∈ r.db.locks.rows, l ∈ db.locks.rows ∨ l.lockedByUserId = userId := by
  cases plan with
  | refused => cases h
  | extend extended expiresAt =>
    rw [Collaboration.commitLock, Option.ite_none_right_eq_some] at h
    obtain ⟨-, h⟩ := h
    cases h
    obtain ⟨element, origin⟩ := planned
    refine ⟨rfl, rfl, ⟨element, origin⟩, fun l hl => ?_, fun l hl => ?_⟩
    · obtain ⟨before, there, rfl⟩ :=
        (Table.mem_updateWhere fun l => l.element_extend expiresAt).mp hl
      split
      · exact keeps.locks before there
      · exact keeps.locks before there
    · by_cases same : l.id = lockId
      · have kept := keeps.locks l hl
        rw [same, origin, Option.some.injEq, LockOrigin.mk.injEq] at kept
        exact Or.inr kept.2.symm
      · refine Or.inl ((Table.mem_updateWhere fun l => l.element_extend expiresAt).mpr ?_)
        exact ⟨l, hl, if_neg (by simpa using same)⟩
  | insert lock expired =>
    obtain ⟨user, origin, old⟩ := planned
    obtain ⟨locks, inserted, stored⟩ := Option.map_eq_some_iff.mp h
    cases stored
    have free := (Table.insert?_eq_some.mp inserted).1
    refine ⟨rfl, rfl, ⟨_, origin⟩, fun l hl => ?_, fun l hl => Or.inl ?_⟩
    · obtain rfl | before := (Table.mem_insert? inserted).mp (Table.mem_deleteWhere.mp hl).1
      · rw [origin, user]
      · exact keeps.locks l before
    · refine Table.mem_deleteWhere.mpr ⟨(Table.mem_insert? inserted).mpr (Or.inr hl), ?_⟩
      -- The insert has found no lock on the element, so the expired one is gone.
      refine decide_eq_false fun same => ?_
      obtain ⟨holder, made_old⟩ := old l.id same
      have kept := keeps.locks l hl
      rw [made_old, Option.some.injEq, LockOrigin.mk.injEq] at kept
      exact Table.find?_eq_none.mp free l hl kept.1.symm

/-! ### Steps -/

theorem keeps_step {r r' : LockRun} (a : LockStep) (keeps : Keeps r) (h : r.step a = some r') :
    Keeps r' := by
  obtain ⟨made, kept⟩ := id keeps
  cases step_cases h with
  | tick later => exact ⟨made, kept.fresh, kept.locks, kept.calls⟩
  | createSession made_session =>
    obtain ⟨locks, generated, stay⟩ := createSession_spec made_session
    exact ⟨made, kept.shrink _ generated (fun l hl => locks ▸ hl) stay kept.calls⟩
  | acquire planned =>
    subst planned
    exact keeps.plan (planLock_planFor ..)
  | @commit n userId _ _ lockId call written =>
    have planned := kept.calls _ (List.mem_of_getElem? call)
    obtain ⟨sessions, generated, origin, locks, -⟩ := kept.commit planned written
    refine ⟨made, fun n bound => kept.fresh n (generated ▸ bound), locks, fun call mem => ?_⟩
    exact (@KeepsWith.calls_set _ _ kept n (.written userId lockId) origin call mem).mono
      (fun _ _ h => h) (.of_eq sessions)
  | notCommitted | notRefreshed =>
    exact ⟨made, kept.fresh, kept.locks, kept.calls_set _ trivial⟩
  | @refresh n userId lockId lock call found =>
    obtain ⟨element, origin⟩ := kept.calls _ (List.mem_of_getElem? call)
    have there := kept.locks lock (List.mem_of_find?_eq_some found)
    have same : lock.id = lockId := by simpa using List.find?_some found
    rw [same, origin, Option.some.injEq, LockOrigin.mk.injEq] at there
    exact ⟨made, kept.fresh, kept.locks, kept.calls_set n there.2.symm⟩
  | release | deleteExpired => exact ⟨made, kept.deleteWhere _⟩
  | @closeSocket _ s found =>
    have there := (List.mem_filter.mp (scalarOneOrNone_some found)).1
    refine ⟨made, kept.fresh, kept.locks, kept.calls_append fun id mem => ?_⟩
    exact ⟨s, there, (List.mem_singleton.mp mem).symm⟩
  | noSession => exact keeps
  | selectIdle =>
    refine ⟨made, kept.fresh, kept.locks, kept.calls_append fun id mem => ?_⟩
    obtain ⟨s, hs, rfl⟩ := List.mem_map.mp mem
    exact ⟨s, (List.mem_filter.mp hs).1, rfl⟩
  | endSessions call =>
    have there := kept.calls _ (List.mem_of_getElem? call)
    obtain ⟨generated, stay, -, sub, -⟩ := endSessions_spec _ _ r.db there
    exact ⟨made, kept.shrink _ (Nat.le_of_eq generated.symm) sub stay (kept.calls_set _ trivial)⟩

theorem rightful_step {r r' : LockRun} (a : LockStep) (keeps : Keeps r) (h : r.step a = some r') :
    Rightful r a r' := by
  obtain ⟨made, kept⟩ := keeps
  intro l hl
  cases step_cases h with
  | createSession made_session =>
    left
    rw [(createSession_spec made_session).1]
    exact hl
  | @acquire _ _ _ _ _ _ plan =>
    left
    cases plan <;> exact hl
  | commit call written =>
    obtain ⟨-, -, -, -, others⟩ := kept.commit (kept.calls _ (List.mem_of_getElem? call)) written
    obtain same | own := others l hl
    · exact Or.inl same
    · right
      left
      rw [actor, call, own]
  | @release _ _ userId =>
    by_cases own : l.lockedByUserId = userId
    · exact Or.inr (Or.inl (congrArg some own.symm))
    · exact Or.inl (Table.mem_deleteWhere.mpr ⟨hl, by simp [own]⟩)
  | @deleteExpired _ now past =>
    by_cases expired : l.expiresAt ≤ now
    · exact Or.inr (Or.inr (Or.inr (le_trans expired past)))
    · exact Or.inl (Table.mem_deleteWhere.mpr ⟨hl, by simp [expired]⟩)
  | endSessions call =>
    obtain ⟨-, -, -, -, deleted⟩ :=
      endSessions_spec _ _ r.db (kept.calls _ (List.mem_of_getElem? call))
    obtain same | ended := deleted l hl
    · exact Or.inl same
    · exact Or.inr (Or.inr (Or.inl ended))
  | tick | notCommitted | refresh | notRefreshed | closeSocket | noSession | selectIdle =>
    exact Or.inl hl

theorem exclusive (r : LockRun) : Exclusive r := by
  intro l hl l' hl' same _ _
  rw [r.db.locks.eq_of_key_eq hl hl' same]

theorem Keeps.truthful {r : LockRun} (keeps : Keeps r) : Truthful r := by
  obtain ⟨made, kept⟩ := keeps
  intro userId lock mem
  exact kept.calls _ mem

theorem keeps_of_reaches {now : Time} {r : LockRun} (run : Reaches step always (start now) r) :
    Keeps r :=
  run.invariant (fun _ a _ keeps _ h => keeps_step a keeps h) (Keeps.start now)

/-- Whatever the order of the steps, one user at most has an unexpired lock on an element, success
is for the user of the row, and no step of someone else changes a lock before its time. -/
theorem locks_exclusive (now : Time) (r : LockRun) (run : Reaches step always (start now) r) :
    Exclusive r ∧ Truthful r ∧ ∀ a r', r.step a = some r' → Rightful r a r' :=
  have keeps := keeps_of_reaches run
  ⟨exclusive r, keeps.truthful, fun a _ h => rightful_step a keeps h⟩

end LockRun

/-- Ana's lock keeps Bo out until it has expired. -/
theorem locks_exclusive_in_turn : ∃ r, LockRun.Exclusive r ∧ LockRun.Truthful r ∧
    (∀ a r', r.step a = some r' → LockRun.Rightful r a r') ∧
    r.db.locks.rows.map (·.lockedByUserId) = ["bo"] := by
  let acquire (now : Time) (userId : String) (sessionId : Nat) : LockStep :=
    .acquire now (uuid "doc") (uuid "text") userId sessionId lockExpirationSeconds
  obtain ⟨r, run, holder⟩ := exists_reaches_of_runAll LockRun.step always (LockRun.start 0)
    [.createSession (uuid "doc") "ana" "s1", .createSession (uuid "doc") "bo" "s2",
      acquire 0 "ana" 0, .commit 0, .refresh 0, acquire 10 "bo" 1, .commit 1, .tick 300,
      .deleteExpired none 300, acquire 300 "bo" 1, .commit 2, .refresh 2]
    (fun r => r.db.locks.rows.map (·.lockedByUserId) = ["bo"]) (by decide)
  obtain ⟨exclusive, truthful, rightful⟩ := LockRun.locks_exclusive 0 r run
  exact ⟨r, exclusive, truthful, rightful, holder⟩

end GigaPdf
