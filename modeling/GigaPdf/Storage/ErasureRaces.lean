import GigaPdf.Lib.Runs
import GigaPdf.Storage.DocumentTransactions
import GigaPdf.Storage.QuotaRuns

/-!
# Erasing between other transactions

The statements of `_erase_rows` and `_erase_tenancy` on documents and counters, between transactions
of other requests. A statement sees what is committed by then, so the documents that are deleted or
handed over need not be those that were read and locked before.
-/

namespace GigaPdf

open Runs

/-- The last statement. -/
inductive ErasurePhase
  | waiting
  | selected
  | released
  | deleted
  | handing
  | charged
  | cleared
  | dropped
  | closed
  | done
deriving DecidableEq

/-- What the erasure has read and written; the others do not see it before the commit, and wait for
the rows. -/
structure ErasureWrites where
  locked : List StoredDocument
  deleted : List Uuid
  handed : List StoredDocument
  cleared : List Uuid
  quotaDeleted : Bool
  held : List Counter

structure ErasureRun where
  db : Db
  phase : ErasurePhase
  writes : ErasureWrites

/-- One step is the next statement of the erasure, or a whole transaction of another request. -/
inductive ErasureStep
  | erase
  | request (t : DocumentTransaction)

def ErasureWrites.empty : ErasureWrites := ⟨[], [], [], [], false, []⟩

/-- The documents that others cannot change. -/
def ErasureWrites.lockedIds (w : ErasureWrites) : List Uuid :=
  w.locked.map (·.id) ++ w.deleted ++ w.handed.map (·.id) ++ w.cleared

def activeOnes (documents : List StoredDocument) : List StoredDocument :=
  documents.filter fun d => !d.isDeleted

section
variable (userId : String) (tenantIds : List Uuid)

def chargedTo (d : StoredDocument) : Bool := d.quotaTenantId.any (· ∈ tenantIds)

theorem StoredDocument.uncharged_id (d : StoredDocument) :
    StoredDocument.id { d with quotaTenantId := none } = d.id := rfl

/-- A counter that the erasure does not delete. -/
def Counter.Survives : Counter → Prop
  | .personal owner => owner ≠ userId
  | .tenant id => id ∉ tenantIds

instance : ∀ c : Counter, Decidable (c.Survives userId tenantIds)
  | .personal owner => inferInstanceAs (Decidable (owner ≠ userId))
  | .tenant id => inferInstanceAs (Decidable (id ∉ tenantIds))

namespace ErasureRun

def start (db : Db) : ErasureRun := ⟨db, .waiting, .empty⟩

variable (r : ErasureRun)

/-- What `UPDATE … SET quota_tenant_id = NULL` changes. -/
def toClear : List StoredDocument :=
  if r.writes.handed = [] then []
  else r.db.documents.rows.filter fun d => chargedTo tenantIds d && d.id ∉ r.writes.deleted

/-- The writes, in the order of the statements. -/
def commit : Option Db := do
  let w := r.writes
  let db ← r.db.releaseDocuments clampedIncrement (activeOnes w.locked)
  let db := db.deleteDocuments w.deleted
  let db := (tallyDocuments (·.ownerId) (activeOnes w.handed)).foldl
    (fun db owner => db.incrementUserStorage clampedIncrement owner.1 owner.2.1 owner.2.2) db
  let db :=
    { db with
      documents := db.documents.updateWhere (fun d => d.id ∈ w.cleared)
        (fun d => { d with quotaTenantId := none }) StoredDocument.uncharged_id }
  let db := db.deleteTenants tenantIds
  some { db with users := db.users.deleteWhere fun q => q.userId = userId && w.quotaDeleted }

/-- The next statement. -/
def erase : Option ErasureRun :=
  let rows := r.db.documents.rows
  let w := r.writes
  match r.phase with
  | .waiting =>
    some ⟨r.db, .selected, { w with locked := rows.filter fun d => d.ownerId = userId }⟩
  | .selected =>
    some ⟨r.db, .released, { w with held := (activeOnes w.locked).map (·.counter) }⟩
  | .released =>
    some ⟨r.db, .deleted,
      { w with deleted := (rows.filter fun d => d.ownerId = userId).map (·.id) }⟩
  | .deleted =>
    some ⟨r.db, .handing,
      { w with handed := rows.filter fun d => chargedTo tenantIds d && d.id ∉ w.deleted }⟩
  | .handing =>
    some ⟨r.db, .charged,
      { w with held := w.held ++ (activeOnes w.handed).map fun d => .personal d.ownerId }⟩
  | .charged => some ⟨r.db, .cleared, { w with cleared := (r.toClear tenantIds).map (·.id) }⟩
  | .cleared =>
    -- The foreign key of a document that is left restricts the deletion.
    if rows.any fun d => chargedTo tenantIds d && d.id ∉ w.deleted && d.id ∉ w.cleared then none
    else some ⟨r.db, .dropped, { w with held := w.held ++ tenantIds.map .tenant }⟩
  | .dropped =>
    let quotaDeleted := (r.db.users.find? userId).isSome
    some ⟨r.db, .closed,
      { w with
        quotaDeleted := quotaDeleted
        held := if quotaDeleted then .personal userId :: w.held else w.held }⟩
  | .closed => (r.commit userId tenantIds).map fun db => ⟨db, .done, .empty⟩
  | .done => none

/-- The organizations whose rows are deleted and not committed: no document may name them. -/
def dropped : List Uuid := if r.phase = .dropped ∨ r.phase = .closed then tenantIds else []

/-- The transaction does not have to wait. -/
def Free (t : DocumentTransaction) : Prop :=
  (∀ change ∈ t.changes, change.id ∉ r.writes.lockedIds ∧
    ∀ d ∈ change.written, chargedTo (r.dropped tenantIds) d = false) ∧
  ∀ m ∈ t.moves, m.counter ∉ r.writes.held

instance (t : DocumentTransaction) : Decidable (r.Free tenantIds t) := by
  unfold Free
  infer_instance

def step : ErasureStep → Option ErasureRun
  | .erase => r.erase userId tenantIds
  | .request t =>
    if r.Free tenantIds t then (t.commit r.db).map fun db => { r with db := db } else none

end ErasureRun

/-- Other requests move the counters by what their changes make of the sums. -/
def MatchingRequests (r : ErasureRun) : ErasureStep → Prop
  | .request t => t.Matches r.db
  | .erase => True

instance (r : ErasureRun) (s : ErasureStep) : Decidable (MatchingRequests r s) := by
  cases s <;> unfold MatchingRequests <;> infer_instance

/-- What a statement takes beyond what was read is in the trash, or on a counter that goes as
well. -/
def NothingBetween (r : ErasureRun) : Prop :=
  match r.phase with
  | .released => ∀ d ∈ r.db.documents.rows, d.ownerId = userId →
    d ∈ r.writes.locked ∨ d.isDeleted = true ∨ ¬d.counter.Survives userId tenantIds
  | .charged => ∀ d ∈ r.toClear tenantIds,
    d ∈ r.writes.handed ∨ d.isDeleted = true ∨ d.ownerId = userId
  | _ => True

instance (r : ErasureRun) : Decidable (NothingBetween userId tenantIds r) := by
  unfold NothingBetween
  split <;> infer_instance

def UndisturbedErasure (r : ErasureRun) : ErasureStep → Prop
  | .request t => t.Matches r.db
  | .erase => NothingBetween userId tenantIds r

instance (r : ErasureRun) (s : ErasureStep) :
    Decidable (UndisturbedErasure userId tenantIds r s) := by
  cases s <;> unfold UndisturbedErasure <;> infer_instance

end

/-! ## What is kept -/

def ErasurePhase.number : ErasurePhase → Nat
  | .waiting => 0
  | .selected => 1
  | .released => 2
  | .deleted => 3
  | .handing => 4
  | .charged => 5
  | .cleared => 6
  | .dropped => 7
  | .closed => 8
  | .done => 9

/-- The rows that are locked are those that were read, and what was taken beyond them weighs nothing
on a counter that survives. -/
structure ErasureRows (userId : String) (tenantIds : List Uuid) (db : Db) (w : ErasureWrites) :
    Prop where
  locked : ∀ d ∈ w.locked, d ∈ db.documents.rows
  deleted : ∀ id ∈ w.deleted, ∃ d ∈ db.documents.rows, d.id = id ∧
    (d ∈ w.locked ∨ d.isDeleted = true ∨ ¬d.counter.Survives userId tenantIds)
  handed : ∀ d ∈ w.handed, d ∈ db.documents.rows ∧ d.id ∉ w.deleted
  cleared : ∀ id ∈ w.cleared, ∃ d ∈ db.documents.rows, d.id = id ∧ chargedTo tenantIds d = true ∧
    (d ∈ w.handed ∨ d.isDeleted = true ∨ d.ownerId = userId)

namespace ErasureRun

variable {userId : String} {tenantIds : List Uuid} {r s : ErasureRun}

structure Keeps (userId : String) (tenantIds : List Uuid) (r : ErasureRun) : Prop where
  exact : ∀ c, (r.phase = .done → c.Survives userId tenantIds) → r.db.usage c = r.db.recorded c
  attributed : Attributed r.db
  rows : ErasureRows userId tenantIds r.db r.writes
  read : (∀ d ∈ r.writes.locked, d.ownerId = userId) ∧
    ∀ d ∈ r.writes.handed, chargedTo tenantIds d = true
  nodup : r.writes.locked.Nodup ∧ r.writes.handed.Nodup
  unread : (r.phase.number < 3 → r.writes.deleted = []) ∧
    (r.phase.number < 4 → r.writes.handed = []) ∧ (r.phase.number < 6 → r.writes.cleared = [])
  took : 3 ≤ r.phase.number → ∀ d ∈ r.writes.locked, d.id ∈ r.writes.deleted
  moved : 6 ≤ r.phase.number → ∀ d ∈ r.writes.handed, d.id ∈ r.writes.cleared
  restricted : r.phase = .dropped ∨ r.phase = .closed → ∀ d ∈ r.db.documents.rows,
    chargedTo tenantIds d = true → d.id ∈ r.writes.deleted ∨ d.id ∈ r.writes.cleared

/-- Before the first statement and after the commit. -/
theorem keeps_of_empty {db : Db} {phase : ErasurePhase}
    (outside : ¬(phase = .dropped ∨ phase = .closed))
    (exact : ∀ c, (phase = .done → c.Survives userId tenantIds) → db.usage c = db.recorded c)
    (attributed : Attributed db) : Keeps userId tenantIds ⟨db, phase, .empty⟩ where
  exact := exact
  attributed := attributed
  rows :=
    { locked := fun _ mem => absurd mem List.not_mem_nil
      deleted := fun _ mem => absurd mem List.not_mem_nil
      handed := fun _ mem => absurd mem List.not_mem_nil
      cleared := fun _ mem => absurd mem List.not_mem_nil }
  read := ⟨fun _ mem => absurd mem List.not_mem_nil, fun _ mem => absurd mem List.not_mem_nil⟩
  nodup := ⟨List.nodup_nil, List.nodup_nil⟩
  unread := ⟨fun _ => rfl, fun _ => rfl, fun _ => rfl⟩
  took _ _ mem := absurd mem List.not_mem_nil
  moved _ _ mem := absurd mem List.not_mem_nil
  restricted inside := absurd inside outside

theorem keeps_start {db : Db} (balanced : Balanced db) : Keeps userId tenantIds (start db) :=
  keeps_of_empty (by decide) (fun c _ => congrFun balanced.exact c) balanced.attributed

/-! ## Other requests -/

/-- A row that is locked is still there. -/
theorem mem_of_free {t : DocumentTransaction} {db : Db} (free : r.Free tenantIds t)
    (h : t.commit r.db = some db) {d : StoredDocument} (hd : d ∈ r.db.documents.rows)
    (locked : d.id ∈ r.writes.lockedIds) : d ∈ db.documents.rows := by
  have same : db.documents.find? d.id = r.db.documents.find? d.id :=
    DocumentTransaction.find?_commit h fun change mem here =>
      (free.1 change mem).1 (here ▸ locked)
  rw [Table.find?_of_mem hd] at same
  exact (Table.find?_eq_some.mp same).1

theorem Keeps.request (kept : r.Keeps userId tenantIds) {t : DocumentTransaction}
    (matching : t.Matches r.db) (free : r.Free tenantIds t) {db : Db}
    (h : t.commit r.db = some db) : Keeps userId tenantIds { r with db := db } where
  exact c survives := DocumentTransaction.commit_exact matching h (kept.exact c survives)
  attributed := DocumentTransaction.commit_attributed kept.attributed h
  rows :=
    { locked := fun d hd => mem_of_free free h (kept.rows.locked d hd)
        (by simp [ErasureWrites.lockedIds, List.mem_map_of_mem hd])
      deleted := by
        intro id mem
        obtain ⟨d, hd, rfl, rest⟩ := kept.rows.deleted id mem
        exact ⟨d, mem_of_free free h hd (by simp [ErasureWrites.lockedIds, mem]), rfl, rest⟩
      handed := by
        intro d hd
        obtain ⟨row, stays⟩ := kept.rows.handed d hd
        refine ⟨mem_of_free free h row ?_, stays⟩
        simp [ErasureWrites.lockedIds, List.mem_map_of_mem hd]
      cleared := by
        intro id mem
        obtain ⟨d, hd, rfl, rest⟩ := kept.rows.cleared id mem
        exact ⟨d, mem_of_free free h hd (by simp [ErasureWrites.lockedIds, mem]), rfl, rest⟩ }
  read := kept.read
  nodup := kept.nodup
  unread := kept.unread
  took := kept.took
  moved := kept.moved
  restricted := by
    intro phase d hd charged
    obtain old | ⟨change, mem, new⟩ := DocumentTransaction.mem_commit h hd
    · exact kept.restricted phase d old charged
    · have apart := (free.1 change mem).2 d new
      have dropped : r.dropped tenantIds = tenantIds := if_pos phase
      rw [dropped, charged] at apart
      cases apart

/-! ## The commit -/

theorem mem_activeOnes {documents : List StoredDocument} {d : StoredDocument} :
    d ∈ activeOnes documents ↔ d ∈ documents ∧ d.isDeleted = false := by
  rw [activeOnes, List.mem_filter, Bool.not_eq_true']

theorem rows_nodup (db : Db) : db.documents.rows.Nodup := db.documents.unique.of_map _

/-- The counters cover what is released. -/
theorem Keeps.covered (kept : r.Keeps userId tenantIds) (closed : r.phase = .closed) (c : Counter) :
    documentCharges (activeOnes r.writes.locked) c ≤ r.db.usage c := by
  have listed : documentCharges (r.db.documents.rows.filter (· ∈ activeOnes r.writes.locked)) c =
      documentCharges (activeOnes r.writes.locked) c := by
    refine Ledger.charges_of_subset ((rows_nodup r.db).filter _) (kept.nodup.1.filter _)
      (fun d hd => ?_) fun d hd other => ?_
    · have row := kept.rows.locked d (mem_activeOnes.mp hd).1
      exact List.mem_filter.mpr ⟨row, decide_eq_true hd⟩
    · exact absurd (of_decide_eq_true (List.mem_filter.mp hd).2) other
  rw [kept.exact c fun done => absurd (closed.symm.trans done) (by decide), ← listed]
  exact Ledger.charges_filter_le (fun d _ => weight_nonneg d) _ c

section
variable {c : Counter}

/-- What is deleted weighs as much as what was released. -/
theorem Keeps.deleted_charges (kept : r.Keeps userId tenantIds) (closed : r.phase = .closed)
    (survives : c.Survives userId tenantIds) :
    documentCharges (r.db.documents.rows.filter fun d => d.id ∈ r.writes.deleted) c =
      documentCharges (activeOnes r.writes.locked) c := by
  refine Ledger.charges_of_subset ((rows_nodup r.db).filter _) (kept.nodup.1.filter _)
    (fun d hd => ?_) fun d hd other here => ?_
  · have mem := (mem_activeOnes.mp hd).1
    have took := kept.took (by rw [closed]; decide) d mem
    exact List.mem_filter.mpr ⟨kept.rows.locked d mem, decide_eq_true took⟩
  · obtain ⟨row, gone⟩ := List.mem_filter.mp hd
    obtain ⟨x, hx, same, why⟩ := kept.rows.deleted d.id (of_decide_eq_true gone)
    obtain rfl := r.db.documents.eq_of_key_eq hx row same
    obtain mem | trashed | goes := why
    · cases trashed : x.isDeleted with
      | true => exact weight_trashed trashed
      | false => exact absurd (mem_activeOnes.mpr ⟨mem, trashed⟩) other
    · exact weight_trashed trashed
    · rw [here] at goes
      exact absurd survives goes

/-- The rows that are handed over, among those that are left. -/
def detached (r : ErasureRun) : List StoredDocument :=
  (r.db.documents.deleteWhere fun d => d.id ∈ r.writes.deleted).rows.filter
    fun d => d.id ∈ r.writes.cleared

theorem mem_detached {d : StoredDocument} : d ∈ r.detached ↔ d ∈ r.db.documents.rows ∧
    d.id ∉ r.writes.deleted ∧ d.id ∈ r.writes.cleared := by
  rw [detached, List.mem_filter, Table.mem_deleteWhere, decide_eq_false_iff_not,
    decide_eq_true_iff, and_assoc]

theorem Keeps.detached_spec (kept : r.Keeps userId tenantIds) {d : StoredDocument}
    (hd : d ∈ r.detached) : chargedTo tenantIds d = true ∧
      (d ∈ r.writes.handed ∨ d.isDeleted = true ∨ d.ownerId = userId) := by
  obtain ⟨row, -, mem⟩ := mem_detached.mp hd
  obtain ⟨x, hx, same, charged, why⟩ := kept.rows.cleared d.id mem
  obtain rfl := r.db.documents.eq_of_key_eq hx row same
  exact ⟨charged, why⟩

theorem Keeps.detached_before (kept : r.Keeps userId tenantIds)
    (survives : c.Survives userId tenantIds) : documentCharges r.detached c = 0 := by
  refine Ledger.charges_of_ne (fun d hd same => ?_) _
  obtain ⟨t, ht, mem⟩ := (Option.any_eq_true _ _).mp (kept.detached_spec hd).1
  rw [← same, StoredDocument.counter, ht] at survives
  exact survives (of_decide_eq_true mem)

/-- What is handed over weighs as much as what was charged to the owners. -/
theorem Keeps.detached_after (kept : r.Keeps userId tenantIds) (closed : r.phase = .closed)
    (survives : c.Survives userId tenantIds) :
    documentCharges (r.detached.map fun d => { d with quotaTenantId := none }) c =
      Tally.held (tallyDocuments (·.ownerId) (activeOnes r.writes.handed))
        fun u => Counter.personal u = c := by
  have nodup : r.detached.Nodup := by
    refine List.Nodup.filter _ ?_
    rw [Table.rows_deleteWhere]
    exact (rows_nodup r.db).filter _
  rw [documentCharges, charges_detached, held_charged fun d hd => (mem_activeOnes.mp hd).2]
  refine Ledger.charges_of_subset nodup (kept.nodup.2.filter _) (fun d hd => ?_)
    fun d hd other here => ?_
  · have mem := (mem_activeOnes.mp hd).1
    obtain ⟨row, stays⟩ := kept.rows.handed d mem
    exact mem_detached.mpr ⟨row, stays, kept.moved (by rw [closed]; decide) d mem⟩
  · obtain mem | trashed | own := (kept.detached_spec hd).2
    · cases trashed : d.isDeleted with
      | true => exact weight_trashed trashed
      | false => exact absurd (mem_activeOnes.mpr ⟨mem, trashed⟩) other
    · exact weight_trashed trashed
    · rw [← here] at survives
      exact absurd own survives

end

/-- Counters that survive are not touched by the last two deletions. -/
theorem usage_dropped (db : Db) (quotaDeleted : Bool) {c : Counter}
    (survives : c.Survives userId tenantIds) :
    Db.usage { db.deleteTenants tenantIds with
      users := (db.deleteTenants tenantIds).users.deleteWhere
        fun q => q.userId = userId && quotaDeleted } c = db.usage c := by
  cases c with
  | tenant id => exact (usage_deleteTenants db tenantIds (.tenant id)).trans (if_neg survives)
  | personal owner =>
    simp only [Db.usage, Db.deleteTenants, Table.find?_deleteWhere]
    cases found : db.users.find? owner with
    | none => rfl
    | some q =>
      obtain ⟨-, rfl⟩ := Table.find?_eq_some.mp found
      have apart : ¬q.userId = userId := survives
      rw [Option.filter_some, if_pos (by simp [apart])]

/-- The rows when the documents have been deleted and handed over, and what the commit makes of
them. -/
structure Settled (userId : String) (tenantIds : List Uuid) (r : ErasureRun) (paid db : Db) :
    Prop where
  documents : paid.documents = r.db.documents.deleteWhere fun d => d.id ∈ r.writes.deleted
  usage : ∀ c, paid.usage c = r.db.usage c - documentCharges (activeOnes r.writes.locked) c +
    Tally.held (tallyDocuments (·.ownerId) (activeOnes r.writes.handed))
      fun u => Counter.personal u = c
  tenants : ∀ t, (paid.tenants.find? t).isSome = (r.db.tenants.find? t).isSome
  cleared : db.documents = paid.documents.updateWhere (fun d => d.id ∈ r.writes.cleared)
    (fun d => { d with quotaTenantId := none }) fun _ => rfl
  dropped : db.tenants = paid.tenants.deleteWhere fun t => t.id ∈ tenantIds
  survives : ∀ c, c.Survives userId tenantIds → db.usage c = paid.usage c

theorem Keeps.settled (kept : r.Keeps userId tenantIds) (closed : r.phase = .closed) {db : Db}
    (h : r.commit userId tenantIds = some db) : ∃ paid, Settled userId tenantIds r paid db := by
  obtain ⟨released, hreleased, same⟩ := Option.bind_eq_some_iff.mp h
  obtain ⟨unclamped, result⟩ := releaseDocuments_settles
    (fun d hd => (mem_activeOnes.mp hd).2) (kept.covered closed)
  have first := result released (unclamped.symm.trans hreleased)
  let gone := released.deleteDocuments r.writes.deleted
  let charged := tallyDocuments (·.ownerId) (activeOnes r.writes.handed)
  let paid := charged.foldl
    (fun db e => db.incrementUserStorage clampedIncrement e.1 e.2.1 e.2.2) gone
  have second : Moved gone
      (fun c => gone.usage c + Tally.held charged fun u => Counter.personal u = c) paid := by
    obtain ⟨unclamped, moved⟩ := charge_owners charged (tallyDocuments_nonneg _ _) gone fun c => by
      change 0 ≤ released.usage c
      rw [first.usage]
      exact sub_nonneg.mpr (kept.covered closed c)
    rw [← unclamped] at moved
    exact moved
  cases same
  refine ⟨paid, ?_, fun c => ?_, fun t => ?_, rfl, rfl, fun c survives => ?_⟩
  · rw [second.frame.documents]
    change released.documents.deleteWhere _ = _
    rw [first.frame.documents]
  · rw [second.usage]
    change released.usage c + _ = _
    rw [first.usage]
  · rw [second.frame.tenants]
    exact first.frame.tenants t
  · exact usage_dropped _ _ survives

theorem Keeps.commit_exact (kept : r.Keeps userId tenantIds) (closed : r.phase = .closed)
    {paid db : Db} (settled : Settled userId tenantIds r paid db) {c : Counter}
    (survives : c.Survives userId tenantIds) : db.usage c = db.recorded c := by
  have left := Ledger.recorded_deleteWhere r.db.documents (fun d => d.id ∈ r.writes.deleted)
    StoredDocument.counter StoredDocument.weight c
  have total := Ledger.recorded_updateWhere paid.documents (fun d => d.id ∈ r.writes.cleared)
    (fun d => { d with quotaTenantId := none }) (fun _ => rfl) StoredDocument.counter
    StoredDocument.weight c
  have deleted := kept.deleted_charges closed survives
  have before := kept.detached_before survives
  have after := kept.detached_after closed survives
  simp only [documentCharges] at deleted before after
  rw [settled.survives c survives, Db.recorded, settled.cleared]
  refine Eq.trans ?_ total.symm
  rw [settled.usage, settled.documents, left, deleted,
    kept.exact c fun done => absurd (closed.symm.trans done) (by decide)]
  refine congrArg₂ (· + ·) ?_ after.symm
  exact (sub_eq_self.mpr before).symm

theorem Keeps.commit_attributed (kept : r.Keeps userId tenantIds) (closed : r.phase = .closed)
    {paid db : Db} (settled : Settled userId tenantIds r paid db) : Attributed db := by
  intro d hd t ht
  rw [settled.cleared] at hd
  obtain ⟨x, hx, rfl⟩ := List.mem_map.mp hd
  rw [settled.documents, Table.mem_deleteWhere, decide_eq_false_iff_not] at hx
  obtain ⟨row, stays⟩ := hx
  by_cases cleared : x.id ∈ r.writes.cleared
  · simp [cleared] at ht
  · have held : x.quotaTenantId = some t := by simpa [cleared] using ht
    have there : (paid.tenants.find? t).isSome := by
      rw [settled.tenants]
      exact kept.attributed x row t held
    have survives : t ∉ tenantIds := by
      intro mem
      have named : chargedTo tenantIds x = true :=
        (Option.any_eq_true _ _).mpr ⟨t, held, decide_eq_true mem⟩
      exact (kept.restricted (.inr closed) x row named).elim stays cleared
    obtain ⟨tenant, found⟩ := Option.isSome_iff_exists.mp there
    obtain ⟨-, rfl⟩ := Table.find?_eq_some.mp found
    rw [settled.dropped, Table.find?_deleteWhere, found, Option.filter_some,
      if_pos (by simp [survives])]
    rfl

/-! ## The statements -/

theorem mem_toClear {d : StoredDocument} (h : d ∈ r.toClear tenantIds) :
    r.writes.handed ≠ [] ∧ d ∈ r.db.documents.rows ∧ chargedTo tenantIds d = true ∧
      d.id ∉ r.writes.deleted := by
  unfold toClear at h
  split at h
  · cases h
  · rename_i some_handed
    obtain ⟨row, both⟩ := List.mem_filter.mp h
    rw [Bool.and_eq_true, decide_eq_true_iff] at both
    exact ⟨some_handed, row, both⟩

/-- A statement that reads and writes no document. -/
theorem Keeps.pass (kept : r.Keeps userId tenantIds) {phase : ErasurePhase} {quotaDeleted : Bool}
    {held : List Counter} (next : phase.number = r.phase.number + 1) (ends : phase ≠ .done)
    (took : 3 ≤ phase.number → 3 ≤ r.phase.number) (moved : 6 ≤ phase.number → 6 ≤ r.phase.number)
    (restricted : phase = .dropped ∨ phase = .closed → ∀ d ∈ r.db.documents.rows,
      chargedTo tenantIds d = true → d.id ∈ r.writes.deleted ∨ d.id ∈ r.writes.cleared) :
    Keeps userId tenantIds
      ⟨r.db, phase, { r.writes with quotaDeleted := quotaDeleted, held := held }⟩ where
  exact c _ := kept.exact c fun done => by
    rw [done] at next
    cases phase <;> simp [ErasurePhase.number] at next
  attributed := kept.attributed
  rows := ⟨kept.rows.locked, kept.rows.deleted, kept.rows.handed, kept.rows.cleared⟩
  read := kept.read
  nodup := kept.nodup
  unread :=
    ⟨fun h => kept.unread.1 (by dsimp only at h; omega),
      fun h => kept.unread.2.1 (by dsimp only at h; omega),
      fun h => kept.unread.2.2 (by dsimp only at h; omega)⟩
  took h := kept.took (took h)
  moved h := kept.moved (moved h)
  restricted := restricted

theorem Keeps.select {db : Db} {w : ErasureWrites}
    (kept : Keeps userId tenantIds ⟨db, .waiting, w⟩) :
    Keeps userId tenantIds
      ⟨db, .selected, { w with locked := db.documents.rows.filter fun d => d.ownerId = userId }⟩ := by
  obtain ⟨undeleted, unhanded, uncleared⟩ := kept.unread
  have deleted : w.deleted = [] := undeleted (by decide : 0 < 3)
  have handed : w.handed = [] := unhanded (by decide : 0 < 4)
  have cleared : w.cleared = [] := uncleared (by decide : 0 < 6)
  refine
    { exact := fun c _ => kept.exact c nofun
      attributed := kept.attributed
      rows := ⟨fun d hd => (List.mem_filter.mp hd).1, ?_, kept.rows.handed, kept.rows.cleared⟩
      read := ⟨fun d hd => of_decide_eq_true (List.mem_filter.mp hd).2, kept.read.2⟩
      nodup := ⟨(rows_nodup db).filter _, kept.nodup.2⟩
      unread := ⟨fun _ => deleted, fun _ => handed, fun _ => cleared⟩
      took := fun h => absurd h (by decide : ¬3 ≤ 1)
      moved := fun h => absurd h (by decide : ¬6 ≤ 1)
      restricted := by rintro (h | h) <;> cases h }
  intro id mem
  rw [deleted] at mem
  cases mem

theorem Keeps.deleteDocuments {db : Db} {w : ErasureWrites}
    (kept : Keeps userId tenantIds ⟨db, .released, w⟩)
    (nothing : NothingBetween userId tenantIds ⟨db, .released, w⟩) :
    Keeps userId tenantIds ⟨db, .deleted,
      { w with deleted := (db.documents.rows.filter fun d => d.ownerId = userId).map (·.id) }⟩ := by
  obtain ⟨-, unhanded, uncleared⟩ := kept.unread
  have handed : w.handed = [] := unhanded (by decide : 2 < 4)
  have cleared : w.cleared = [] := uncleared (by decide : 2 < 6)
  refine
    { exact := fun c _ => kept.exact c nofun
      attributed := kept.attributed
      rows := ⟨kept.rows.locked, fun id mem => ?_, fun d hd => ?_, kept.rows.cleared⟩
      read := kept.read
      nodup := kept.nodup
      unread := ⟨fun h => absurd h (by decide : ¬3 < 3), fun _ => handed, fun _ => cleared⟩
      took := fun _ d hd => ?_
      moved := fun h => absurd h (by decide : ¬6 ≤ 3)
      restricted := by rintro (h | h) <;> cases h }
  · obtain ⟨d, hd, rfl⟩ := List.mem_map.mp mem
    obtain ⟨row, own⟩ := List.mem_filter.mp hd
    exact ⟨d, row, rfl, nothing d row (of_decide_eq_true own)⟩
  · change d ∈ w.handed at hd
    rw [handed] at hd
    cases hd
  · refine List.mem_map_of_mem (List.mem_filter.mpr ⟨kept.rows.locked d hd, ?_⟩)
    exact decide_eq_true (kept.read.1 d hd)

theorem Keeps.handOver {db : Db} {w : ErasureWrites}
    (kept : Keeps userId tenantIds ⟨db, .deleted, w⟩) :
    Keeps userId tenantIds ⟨db, .handing,
      { w with
        handed := db.documents.rows.filter
          fun d => chargedTo tenantIds d && d.id ∉ w.deleted }⟩ := by
  have cleared : w.cleared = [] := kept.unread.2.2 (by decide : 3 < 6)
  refine
    { exact := fun c _ => kept.exact c nofun
      attributed := kept.attributed
      rows := ⟨kept.rows.locked, kept.rows.deleted, fun d hd => ?_, fun id mem => ?_⟩
      read := ⟨kept.read.1, fun d hd => ?_⟩
      nodup := ⟨kept.nodup.1, (rows_nodup db).filter _⟩
      unread := ⟨fun h => absurd h (by decide : ¬4 < 3), fun h => absurd h (by decide : ¬4 < 4),
        fun _ => cleared⟩
      took := fun _ => kept.took (by decide : 3 ≤ 3)
      moved := fun h => absurd h (by decide : ¬6 ≤ 4)
      restricted := by rintro (h | h) <;> cases h }
  · obtain ⟨row, both⟩ := List.mem_filter.mp hd
    rw [Bool.and_eq_true, decide_eq_true_iff] at both
    exact ⟨row, both.2⟩
  · change id ∈ w.cleared at mem
    rw [cleared] at mem
    cases mem
  · exact (Bool.and_eq_true_iff.mp (List.mem_filter.mp hd).2).1

theorem Keeps.clear {db : Db} {w : ErasureWrites}
    (kept : Keeps userId tenantIds ⟨db, .charged, w⟩)
    (nothing : NothingBetween userId tenantIds ⟨db, .charged, w⟩) :
    Keeps userId tenantIds ⟨db, .cleared,
      { w with cleared := (toClear tenantIds ⟨db, .charged, w⟩).map (·.id) }⟩ := by
  refine
    { exact := fun c _ => kept.exact c nofun
      attributed := kept.attributed
      rows := ⟨kept.rows.locked, kept.rows.deleted, kept.rows.handed, fun id mem => ?_⟩
      read := kept.read
      nodup := kept.nodup
      unread := ⟨fun h => absurd h (by decide : ¬6 < 3), fun h => absurd h (by decide : ¬6 < 4),
        fun h => absurd h (by decide : ¬6 < 6)⟩
      took := fun _ => kept.took (by decide : 3 ≤ 5)
      moved := fun _ d hd => ?_
      restricted := by rintro (h | h) <;> cases h }
  · obtain ⟨d, hd, rfl⟩ := List.mem_map.mp mem
    obtain ⟨-, row, charged, -⟩ := mem_toClear hd
    exact ⟨d, row, rfl, charged, nothing d hd⟩
  · obtain ⟨row, stays⟩ := kept.rows.handed d hd
    have some_handed : w.handed ≠ [] := List.ne_nil_of_mem hd
    refine List.mem_map_of_mem ?_
    rw [toClear, if_neg some_handed]
    refine List.mem_filter.mpr ⟨row, ?_⟩
    rw [kept.read.2 d hd, decide_eq_true stays]
    rfl

theorem Keeps.finish (kept : r.Keeps userId tenantIds) (closed : r.phase = .closed) {db : Db}
    (h : r.commit userId tenantIds = some db) : Keeps userId tenantIds ⟨db, .done, .empty⟩ := by
  obtain ⟨paid, settled⟩ := kept.settled closed h
  exact keeps_of_empty (by decide)
    (fun c survives => kept.commit_exact closed settled (survives rfl))
    (kept.commit_attributed closed settled)

theorem Keeps.erase (kept : r.Keeps userId tenantIds) (nothing : NothingBetween userId tenantIds r)
    (h : r.erase userId tenantIds = some s) : s.Keeps userId tenantIds := by
  obtain ⟨db, phase, w⟩ := r
  cases phase with
  | waiting =>
    cases h
    exact kept.select
  | selected =>
    cases h
    exact kept.pass rfl nofun (fun h => absurd h (by decide)) (fun h => absurd h (by decide))
      (by rintro (h | h) <;> cases h)
  | released =>
    cases h
    exact kept.deleteDocuments nothing
  | deleted =>
    cases h
    exact kept.handOver
  | handing =>
    cases h
    exact kept.pass rfl nofun (fun _ => (by decide : 3 ≤ 4)) (fun h => absurd h (by decide))
      (by rintro (h | h) <;> cases h)
  | charged =>
    cases h
    exact kept.clear nothing
  | cleared =>
    obtain ⟨restricted, same⟩ := Option.ite_none_left_eq_some.mp h
    cases same
    refine kept.pass rfl nofun (fun _ => (by decide : 3 ≤ 6)) (fun _ => (by decide : 6 ≤ 6)) ?_
    intro _ d hd charged
    by_contra left
    rw [not_or] at left
    refine restricted (List.any_eq_true.mpr ⟨d, hd, ?_⟩)
    simp only [charged, left, not_false_eq_true, decide_true, Bool.and_true]
  | dropped =>
    cases h
    exact kept.pass rfl nofun (fun _ => (by decide : 3 ≤ 7)) (fun _ => (by decide : 6 ≤ 7))
      fun _ => kept.restricted (.inl rfl)
  | closed =>
    obtain ⟨after, committed, rfl⟩ := Option.map_eq_some_iff.mp h
    exact kept.finish rfl committed
  | done => cases h

theorem Keeps.step (kept : r.Keeps userId tenantIds) {x : ErasureStep}
    (undisturbed : UndisturbedErasure userId tenantIds r x)
    (h : r.step userId tenantIds x = some s) : s.Keeps userId tenantIds := by
  cases x with
  | erase => exact kept.erase undisturbed h
  | request t =>
    obtain ⟨free, changed⟩ := Option.ite_none_right_eq_some.mp h
    obtain ⟨db, committed, rfl⟩ := Option.map_eq_some_iff.mp changed
    exact kept.request undisturbed free committed

end ErasureRun

/-- When nothing that counts is taken beyond what was read, the erasure leaves each counter that
survives the sum of its documents, and each document an organization that exists. -/
theorem erasure_keeps_counters {userId : String} {tenantIds : List Uuid} {db : Db}
    (balanced : Balanced db) {r : ErasureRun}
    (run : Reaches (ErasureRun.step userId tenantIds) (UndisturbedErasure userId tenantIds)
      (.start db) r) :
    (∀ c, (r.phase = .done → c.Survives userId tenantIds) → r.db.usage c = r.db.recorded c) ∧
    ∀ d ∈ r.db.documents.rows, ∀ t, d.quotaTenantId = some t → (r.db.tenants.find? t).isSome := by
  have kept : r.Keeps userId tenantIds :=
    run.invariant (fun _ _ _ kept undisturbed h => ErasureRun.Keeps.step kept undisturbed h)
      (ErasureRun.keeps_start balanced)
  exact ⟨kept.exact, kept.attributed⟩

/-- Nothing is stored, and nothing is counted. -/
theorem balanced_of_unused {db : Db} (documents : db.documents.rows = [])
    (users : ∀ q ∈ db.users.rows, q.storageUsedBytes = 0 ∧ q.documentCount = 0)
    (tenants : ∀ t ∈ db.tenants.rows, t.storageUsedBytes = 0 ∧ t.documentCount = 0) :
    Balanced db := by
  constructor
  · funext c
    rw [recorded_of_ne (by simp [documents])]
    cases c with
    | personal userId =>
      rw [Db.usage]
      cases found : db.users.find? userId with
      | none => rfl
      | some q =>
        obtain ⟨bytes, count⟩ := users q (Table.find?_eq_some.mp found).1
        exact Prod.ext bytes count
    | tenant id =>
      rw [Db.usage]
      cases found : db.tenants.find? id with
      | none => rfl
      | some t =>
        obtain ⟨bytes, count⟩ := tenants t (Table.find?_eq_some.mp found).1
        exact Prod.ext bytes count
  · intro d hd
    rw [documents] at hd
    cases hd

/-- Ana is the last member of one organization, and Bob was in it. -/
def sharedOrganizations : Db :=
  { Db.empty with
    users := ⟨[freeQuotaValues "ana", freeQuotaValues "bob"], by decide⟩
    tenants := ⟨[acme, { acme with id := uuid "solo" }], by decide⟩ }

theorem sharedOrganizations_balanced : Balanced sharedOrganizations :=
  balanced_of_unused rfl (by decide) (by decide)

def uploads (id : Uuid) (ownerId : String) (size : Nat) (tenantId : Option Uuid) : ErasureStep :=
  .request (.add (noteRow id ownerId size none) tenantId 0)

/-- Bob uploads and trashes while Ana's account is erased. -/
def erasureWithUploads : List ErasureStep :=
  [uploads (uuid "a") "ana" 10 none, uploads (uuid "b") "ana" 5 (some (uuid "acme")),
    uploads (uuid "c") "bob" 7 (some (uuid "solo")), .erase,
    uploads (uuid "d") "bob" 3 none, .erase, .erase,
    .request (.trash (noteRow (uuid "c") "bob" 7 (some (uuid "solo"))) 1),
    uploads (uuid "e") "bob" 4 (some (uuid "solo")), .erase, .erase, .erase, .erase, .erase, .erase]

theorem erasure_keeps_counters_with_uploads : ∃ r : ErasureRun, r.phase = .done ∧
    r.db.documents.rows.map (fun d => (d.id.text, d.quotaTenantId)) =
      [("e", none), ("d", none), ("c", none)] ∧
    r.db.usage (.personal "bob") = (7, 2) ∧
    ∀ c, c.Survives "ana" [uuid "solo"] → r.db.usage c = r.db.recorded c := by
  obtain ⟨r, run, done, rows, bob⟩ := exists_reaches_of_runAll
    (ErasureRun.step "ana" [uuid "solo"]) (UndisturbedErasure "ana" [uuid "solo"])
    (.start sharedOrganizations) erasureWithUploads
    (fun r => r.phase = .done ∧
      r.db.documents.rows.map (fun d => (d.id.text, d.quotaTenantId)) =
        [("e", none), ("d", none), ("c", none)] ∧
      r.db.usage (.personal "bob") = (7, 2)) (by decide)
  have exact := (erasure_keeps_counters sharedOrganizations_balanced run).1
  exact ⟨r, done, rows, bob, fun c survives => exact c fun _ => survives⟩

/-- An upload between the first statement and the deletion stays counted, and one between the two
statements of the hand-over is not counted any more. -/
theorem erasure_misses_uploads : Balanced sharedOrganizations ∧ ∃ r : ErasureRun,
    Reaches (ErasureRun.step "ana" [uuid "solo"]) MatchingRequests (.start sharedOrganizations) r ∧
    r.phase = .done ∧
    r.db.usage (.tenant (uuid "acme")) = (5, 1) ∧ r.db.recorded (.tenant (uuid "acme")) = 0 ∧
    r.db.usage (.personal "bob") = (7, 1) ∧ r.db.recorded (.personal "bob") = (13, 2) := by
  refine ⟨sharedOrganizations_balanced, ?_⟩
  exact exists_reaches_of_runAll (ErasureRun.step "ana" [uuid "solo"]) MatchingRequests
    (.start sharedOrganizations)
    [uploads (uuid "c") "bob" 7 (some (uuid "solo")), .erase,
      uploads (uuid "b") "ana" 5 (some (uuid "acme")), .erase, .erase, .erase,
      uploads (uuid "e") "bob" 6 (some (uuid "solo")), .erase, .erase, .erase, .erase, .erase]
    (fun r => r.phase = .done ∧
      r.db.usage (.tenant (uuid "acme")) = (5, 1) ∧ r.db.recorded (.tenant (uuid "acme")) = 0 ∧
      r.db.usage (.personal "bob") = (7, 1) ∧ r.db.recorded (.personal "bob") = (13, 2)) (by decide)

end GigaPdf
