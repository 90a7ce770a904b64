import GigaPdf.Collaboration.Service

/-!
# Taking over a lock

A whole call of `acquire_lock` with no other writer. A lock that has expired is deleted in the flush
that inserts the new one; the insert is sent first, and the unique index refuses it.
-/

namespace GigaPdf

/-- What a call returns, or that it raises. -/
inductive AcquireResult
  | granted (lock : ElementLock)
  | refused (existing : ElementLock)
  | raised
deriving DecidableEq

namespace Collaboration

variable (σ : Collaboration) (now : Time) (documentId elementId : Uuid) (userId : String)
  (sessionId : Nat) (durationSeconds : Time)

/-- The flush with its commit, and the row that is read back. An error rolls the session back. -/
def writeLock (plan : LockPlan) : AcquireResult × Collaboration :=
  match (σ.generate plan).commitLock plan with
  | none => (.raised, σ.generate plan)
  | some (written, lockId) =>
    match written.refreshLock lockId with
    | some lock => (.granted lock, written)
    | none => (.raised, written)

/-- `acquire_lock` -/
def acquireLockResult : AcquireResult × Collaboration :=
  let plan := σ.planLock now documentId elementId userId sessionId durationSeconds
  match plan, σ.locks.find? (documentId, elementId) with
  | .refused, some existing => (.refused existing, σ)
  | _, _ => σ.writeLock plan

/-- The lock of the element is the requester's for the duration, and no other lock has changed. -/
def Granted (outcome : AcquireResult × Collaboration) : Prop :=
  ∃ lock, outcome.1 = .granted lock ∧ lock.element = (documentId, elementId) ∧
    lock.lockedByUserId = userId ∧ lock.expiresAt = now + durationSeconds ∧
    ∀ l, l ∈ outcome.2.locks.rows ↔
      l = lock ∨ l ∈ σ.locks.rows ∧ l.element ≠ (documentId, elementId)

/-- Whoever asks for an element without a valid lock of someone else gets it; else the holder's lock
is reported, and nothing changes. -/
def TakesOver : Prop :=
  let outcome := σ.acquireLockResult now documentId elementId userId sessionId durationSeconds
  match σ.locks.find? (documentId, elementId) with
  | none => σ.Granted now documentId elementId userId durationSeconds outcome
  | some existing =>
    if existing.expiresAt ≤ now ∨ existing.lockedByUserId = userId then
      σ.Granted now documentId elementId userId durationSeconds outcome
    else outcome = (.refused existing, σ)

/-- The primary key of the locks. -/
def LockIds : Prop := ∀ l ∈ σ.locks.rows, ∀ l' ∈ σ.locks.rows, l.id = l'.id → l = l'

variable {σ now documentId elementId userId sessionId durationSeconds}

theorem writeLock_eq {plan : LockPlan} {written : Collaboration} {lockId : Nat} {lock : ElementLock}
    (commits : (σ.generate plan).commitLock plan = some (written, lockId))
    (row : written.refreshLock lockId = some lock) :
    σ.writeLock plan = (.granted lock, written) := by
  simp only [writeLock, commits, row]

/-- Without a row in the way, the new lock is inserted. -/
theorem acquireLock_absent (absent : σ.locks.find? (documentId, elementId) = none) :
    σ.Granted now documentId elementId userId durationSeconds
      (σ.acquireLockResult now documentId elementId userId sessionId durationSeconds) := by
  let lock : ElementLock :=
    { id := σ.generated
      documentId := documentId
      elementId := elementId
      lockedByUserId := userId
      lockedBySessionId := sessionId
      expiresAt := now + durationSeconds }
  have planned : σ.planLock now documentId elementId userId sessionId durationSeconds =
      .insert lock none := by
    rw [planLock, absent]
  have free : σ.locks.find? lock.element = none := absent
  obtain ⟨locks, inserted⟩ : ∃ locks, σ.locks.insert? lock = some locks := by
    rw [Table.insert?, dif_pos free]
    exact ⟨_, rfl⟩
  have rows : locks.rows = lock :: σ.locks.rows := (Table.insert?_eq_some.mp inserted).2
  have kept : (locks.deleteWhere fun l => (none : Option Nat) = some l.id) = locks :=
    Table.deleteWhere_eq_self fun _ _ => rfl
  have commits : (σ.generate (.insert lock none)).commitLock (.insert lock none) =
      some ({ σ with generated := σ.generated + 1, locks }, lock.id) := by
    rw [generate, commitLock, inserted, Option.map_some, kept]
  have row : refreshLock { σ with generated := σ.generated + 1, locks } lock.id = some lock := by
    simp [refreshLock, rows]
  rw [acquireLockResult, planned, absent]
  dsimp only
  rw [writeLock_eq commits row]
  refine ⟨lock, rfl, rfl, rfl, rfl, fun l => ?_⟩
  have others (old : l ∈ σ.locks.rows) : l.element ≠ (documentId, elementId) :=
    Table.find?_eq_none.mp absent l old
  rw [rows, List.mem_cons]
  tauto

/-- The requester's own lock is extended. -/
theorem acquireLock_own (ids : σ.LockIds) {existing : ElementLock}
    (found : σ.locks.find? (documentId, elementId) = some existing)
    (valid : now < existing.expiresAt) (own : existing.lockedByUserId = userId) :
    σ.Granted now documentId elementId userId durationSeconds
      (σ.acquireLockResult now documentId elementId userId sessionId durationSeconds) := by
  obtain ⟨there, here⟩ := Table.find?_eq_some.mp found
  have planned : σ.planLock now documentId elementId userId sessionId durationSeconds =
      .extend existing.id (now + durationSeconds) := by
    rw [planLock, found]
    simp only [if_pos valid, if_pos own]
  let lock := existing.extend (now + durationSeconds)
  let locks := σ.locks.updateWhere (fun l => l.id = existing.id)
    (fun l => l.extend (now + durationSeconds)) fun l => l.element_extend (now + durationSeconds)
  have present : (σ.locks.rows.any fun l => l.id = existing.id) = true :=
    List.any_eq_true.mpr ⟨existing, there, decide_eq_true rfl⟩
  have commits : (σ.generate (.extend existing.id (now + durationSeconds))).commitLock
      (.extend existing.id (now + durationSeconds)) = some ({ σ with locks }, existing.id) := by
    rw [generate, commitLock, if_pos present]
  have mem (l : ElementLock) : l ∈ locks.rows ↔
      l = lock ∨ l ∈ σ.locks.rows ∧ l.element ≠ (documentId, elementId) := by
    rw [Table.mem_updateWhere]
    constructor
    · rintro ⟨old, mem, rfl⟩
      split
      · rename_i same
        rw [ids old mem existing there (of_decide_eq_true same)]
        exact .inl rfl
      · rename_i other
        refine .inr ⟨mem, fun same => other (decide_eq_true ?_)⟩
        rw [σ.locks.eq_of_key_eq mem there (same.trans here.symm)]
    · rintro (rfl | ⟨mem, other⟩)
      · exact ⟨existing, there, if_pos (decide_eq_true rfl)⟩
      · refine ⟨l, mem, if_neg fun same => other ?_⟩
        rw [ids l mem existing there (of_decide_eq_true same), here]
  have row : refreshLock { σ with locks } existing.id = some lock := by
    obtain ⟨l, read⟩ : ∃ l, refreshLock { σ with locks } existing.id = some l :=
      Option.isSome_iff_exists.mp
        (List.find?_isSome.mpr ⟨lock, (mem lock).mpr (.inl rfl), decide_eq_true rfl⟩)
    have same : l.id = existing.id := by simpa using List.find?_some read
    obtain rfl | ⟨old, other⟩ := (mem l).mp (List.mem_of_find?_eq_some read)
    · exact read
    · rw [ids l old existing there same] at other
      exact absurd here other
  rw [acquireLockResult, planned, found]
  dsimp only
  rw [writeLock_eq commits row]
  exact ⟨lock, rfl, here, own, rfl, mem⟩

theorem acquireLock_foreign {existing : ElementLock}
    (found : σ.locks.find? (documentId, elementId) = some existing)
    (valid : now < existing.expiresAt) (foreign : existing.lockedByUserId ≠ userId) :
    σ.acquireLockResult now documentId elementId userId sessionId durationSeconds =
      (.refused existing, σ) := by
  have planned : σ.planLock now documentId elementId userId sessionId durationSeconds =
      .refused := by
    rw [planLock, found]
    simp only [if_pos valid, if_neg foreign]
  rw [acquireLockResult, planned, found]

/-- The expired row is still there when the new one is inserted. -/
theorem acquireLock_expired {existing : ElementLock}
    (found : σ.locks.find? (documentId, elementId) = some existing)
    (expired : existing.expiresAt ≤ now) :
    (σ.acquireLockResult now documentId elementId userId sessionId durationSeconds).1 =
      .raised := by
  let lock : ElementLock :=
    { id := σ.generated
      documentId := documentId
      elementId := elementId
      lockedByUserId := userId
      lockedBySessionId := sessionId
      expiresAt := now + durationSeconds }
  have planned : σ.planLock now documentId elementId userId sessionId durationSeconds =
      .insert lock (some existing.id) := by
    rw [planLock, found]
    simp only [if_neg (not_lt.mpr expired)]
    rfl
  have refused : σ.locks.insert? lock = none := by
    have taken : σ.locks.find? lock.element ≠ none := Option.ne_none_iff_exists'.mpr ⟨_, found⟩
    rw [Table.insert?, dif_neg taken]
  simp only [acquireLockResult, planned, found, writeLock, generate, commitLock, refused,
    Option.map_none]

/-- A call does what it should exactly when the element has no expired lock. -/
theorem acquireLock_takesOver_iff (ids : σ.LockIds) :
    σ.TakesOver now documentId elementId userId sessionId durationSeconds ↔
      ∀ existing ∈ σ.locks.find? (documentId, elementId), now < existing.expiresAt := by
  rw [TakesOver]
  cases found : σ.locks.find? (documentId, elementId) with
  | none => exact iff_of_true (acquireLock_absent found) nofun
  | some existing =>
    simp only [Option.mem_some_iff, forall_eq']
    by_cases valid : now < existing.expiresAt
    · by_cases own : existing.lockedByUserId = userId
      · rw [if_pos (.inr own)]
        exact iff_of_true (acquireLock_own ids found valid own) valid
      · rw [if_neg (not_or.mpr ⟨not_le.mpr valid, own⟩)]
        exact iff_of_true (acquireLock_foreign found valid own) valid
    · have expired := not_lt.mp valid
      rw [if_pos (.inl expired)]
      refine iff_of_false ?_ valid
      rintro ⟨lock, granted, -⟩
      rw [acquireLock_expired found expired] at granted
      cases granted

/-- Ana's lock on an element, which is valid until 300. -/
def lockedByAna : Collaboration where
  now := 0
  sessions := .empty
  locks := ⟨[⟨0, uuid "doc", uuid "text", "ana", 0, 300⟩], List.nodup_singleton _⟩
  generated := 1

theorem lockedByAna_ids : lockedByAna.LockIds := by
  intro l mem l' mem' _
  rw [List.mem_singleton.mp mem, List.mem_singleton.mp mem']

/-- Ana extends her lock. -/
theorem acquireLock_takesOver_ana :
    lockedByAna.TakesOver 100 (uuid "doc") (uuid "text") "ana" 1 lockExpirationSeconds :=
  (acquireLock_takesOver_iff lockedByAna_ids).mpr (by decide)

/-- Bo cannot take over Ana's lock when it has expired. -/
theorem acquireLock_blocked_by_expired :
    ¬∀ (σ : Collaboration) (now : Time) (documentId elementId : Uuid) (userId : String)
      (sessionId : Nat) (durationSeconds : Time), σ.LockIds →
      σ.TakesOver now documentId elementId userId sessionId durationSeconds := by
  intro takes
  have taken := takes lockedByAna 400 (uuid "doc") (uuid "text") "bo" 1 lockExpirationSeconds
    lockedByAna_ids
  obtain ⟨lock, granted, -⟩ := taken
  cases granted

end Collaboration

end GigaPdf
