import GigaPdf.Lib.Ledger
import GigaPdf.Storage.Requests
import Mathlib.Algebra.Order.Group.Int
import Mathlib.Algebra.Order.Monoid.Prod

/-!
# What the counters hold

The abstract account of a document is the counter recorded on it, and the abstract value
of a counter is the sum of its active documents. The functions of the quota service post
to the counters as a ledger posts to its accounts, and the clamp at zero changes nothing
where a counter covers what is taken from it.
-/

namespace GigaPdf

inductive Counter
  | personal (userId : String)
  | tenant (id : Uuid)
deriving DecidableEq

/-- Bytes and number of documents. -/
abbrev Usage := Int × Int

def counterOf (ownerId : String) : Option Uuid → Counter
  | some tenant => .tenant tenant
  | none => .personal ownerId

def StoredDocument.counter (d : StoredDocument) : Counter := counterOf d.ownerId d.quotaTenantId

/-- What a document adds to its counter: nothing while it is in the trash. -/
def StoredDocument.weight (d : StoredDocument) : Usage := if d.isDeleted then 0 else (d.size, 1)

/-- The value of a counter; a quota that does not exist yet counts nothing. -/
def Db.usage (db : Db) : Counter → Usage
  | .personal userId =>
    ((db.users.find? userId).map fun q => (q.storageUsedBytes, q.documentCount)).getD 0
  | .tenant id =>
    ((db.tenants.find? id).map fun t => (t.storageUsedBytes, t.documentCount)).getD 0

/-- A counter that has a row, or gets one when it is moved. -/
def Db.Counts (db : Db) : Counter → Prop
  | .personal _ => True
  | .tenant id => (db.tenants.find? id).isSome

/-- Size and number of the active documents recorded on a counter. -/
def Db.recorded (db : Db) : Counter → Usage :=
  Ledger.recorded db.documents StoredDocument.counter StoredDocument.weight

/-- Every counter is the sum of its documents, and its documents name one that exists. -/
structure Balanced (db : Db) : Prop where
  exact : db.usage = db.recorded
  attributed : ∀ d ∈ db.documents.rows, ∀ t, d.quotaTenantId = some t →
    (db.tenants.find? t).isSome

theorem weight_nonneg (d : StoredDocument) : 0 ≤ d.weight := by
  unfold StoredDocument.weight
  split
  · exact le_rfl
  · exact ⟨Int.natCast_nonneg _, Int.one_nonneg⟩

theorem weight_active {d : StoredDocument} (h : d.isDeleted = false) :
    d.weight = ((d.size : Int), (1 : Int)) := by
  simp [StoredDocument.weight, h]

theorem weight_trashed {d : StoredDocument} (h : d.isDeleted = true) : d.weight = 0 := by
  simp [StoredDocument.weight, h]

theorem Balanced.usage_nonneg {db : Db} (h : Balanced db) (c : Counter) : 0 ≤ db.usage c := by
  rw [h.exact]
  exact Ledger.recorded_nonneg (fun d _ => weight_nonneg d) c

/-- A counter covers any selection of its documents. -/
theorem Balanced.charges_le {db : Db} (h : Balanced db) (p : StoredDocument → Bool) (c : Counter) :
    Ledger.charges StoredDocument.counter StoredDocument.weight (db.documents.rows.filter p) c ≤
      db.usage c := by
  rw [h.exact]
  exact Ledger.charges_filter_le (fun d _ => weight_nonneg d) p c

/-- What is recorded on the counter of a document covers it. -/
theorem weight_le_recorded {db : Db} {d : StoredDocument} (hd : d ∈ db.documents.rows) :
    d.weight ≤ db.recorded d.counter := by
  have one : ∀ items : List StoredDocument, d ∈ items →
      d.weight ≤ Ledger.charges StoredDocument.counter StoredDocument.weight items d.counter := by
    intro items hd
    induction items with
    | nil => cases hd
    | cons x rest ih =>
      rw [Ledger.charges_cons]
      rcases List.mem_cons.mp hd with rfl | hd
      · rw [if_pos rfl]
        exact le_add_of_nonneg_right (Ledger.charges_nonneg (fun r _ => weight_nonneg r) _)
      · refine le_add_of_nonneg_of_le ?_ (ih hd)
        split
        · exact weight_nonneg x
        · exact le_rfl
  exact one _ hd

theorem Balanced.weight_le {db : Db} (h : Balanced db) {d : StoredDocument}
    (hd : d ∈ db.documents.rows) : d.weight ≤ db.usage d.counter := by
  rw [h.exact]
  exact weight_le_recorded hd

/-! ## Frames -/

/-- The same rows but for the values of the counters. -/
structure CountersMoved (db db' : Db) : Prop where
  documents : db'.documents = db.documents
  versions : db'.versions = db.versions
  folders : db'.folders = db.folders
  members : db'.members = db.members
  plans : db'.plans = db.plans
  tenants : ∀ t, (db'.tenants.find? t).isSome = (db.tenants.find? t).isSome

theorem CountersMoved.refl (db : Db) : CountersMoved db db :=
  ⟨rfl, rfl, rfl, rfl, rfl, fun _ => rfl⟩

theorem CountersMoved.trans {a b c : Db} (h : CountersMoved a b) (h' : CountersMoved b c) :
    CountersMoved a c :=
  ⟨h'.documents.trans h.documents, h'.versions.trans h.versions, h'.folders.trans h.folders,
    h'.members.trans h.members, h'.plans.trans h.plans, fun t => (h'.tenants t).trans (h.tenants t)⟩

theorem CountersMoved.recorded {db db' : Db} (h : CountersMoved db db') :
    db'.recorded = db.recorded := by
  unfold Db.recorded
  rw [h.documents]

section
variable {increment : Increment}

theorem incrementUserStorage_frame (db : Db) (userId : String) (b n : Int) :
    CountersMoved db (db.incrementUserStorage increment userId b n) :=
  ⟨rfl, rfl, rfl, rfl, rfl, fun _ => rfl⟩

theorem incrementTenantStorage_frame {db db' : Db} {tenantId : Uuid} {b n : Int}
    (h : db.incrementTenantStorage increment tenantId b n = some db') : CountersMoved db db' := by
  unfold Db.incrementTenantStorage at h
  split at h
  · cases h
  · cases h
    refine ⟨rfl, rfl, rfl, rfl, rfl, fun t => ?_⟩
    rw [Table.find?_update]
    by_cases e : t = tenantId
    · subst e; simp
    · simp [e]

theorem moveCounter_frame {db db' : Db} {ownerId : String} {tenantId : Option Uuid} {b n : Int}
    (h : db.moveCounter increment ownerId tenantId b n = some db') : CountersMoved db db' := by
  unfold Db.moveCounter at h
  split at h
  · cases h; exact .refl db
  · split at h
    · exact incrementTenantStorage_frame h
    · cases h; exact incrementUserStorage_frame db _ _ _

/-- A move that is not zero needs the organization that it names. -/
theorem moveCounter_attributed {db db' : Db} {ownerId : String} {tenantId : Option Uuid}
    {b n : Int} (h : db.moveCounter increment ownerId tenantId b n = some db') (hn : n ≠ 0) :
    ∀ t, tenantId = some t → (db'.tenants.find? t).isSome := by
  rintro t rfl
  rw [(moveCounter_frame h).tenants]
  simp only [Db.moveCounter, hn, and_false, if_false, Db.incrementTenantStorage] at h
  split at h
  · cases h
  · simp_all

/-- Which counter an adjustment moves, and what it records on the document. -/
theorem adjust_charge (db : Db) (d : StoredDocument) (b : Int) (limits : Option EffectiveLimits) :
    ∃ tenantId, ∀ increment, db.adjustDocumentStorage increment d b 1 limits =
      (db.moveCounter increment d.ownerId tenantId b 1).map
        fun db => (db, { d with quotaTenantId := tenantId }) := by
  cases limits with
  | none => exact ⟨db.countingTenantId d.ownerId, fun _ => rfl⟩
  | some limits => exact ⟨limits.chargedTenant, fun _ => rfl⟩

theorem adjust_move (db : Db) (d : StoredDocument) {b n : Int} (hn : n ≤ 0)
    (limits : Option EffectiveLimits) : db.adjustDocumentStorage increment d b n limits =
      (db.moveCounter increment d.ownerId d.quotaTenantId b n).map fun db => (db, d) := by
  have : ¬ n > 0 := by omega
  simp [Db.adjustDocumentStorage, this]

end

/-! ## The exact increments post to a ledger -/

theorem usage_incrementUserStorage (db : Db) (userId : String) (b n : Int) :
    (db.incrementUserStorage exactIncrement userId b n).usage =
      Ledger.post db.usage (.personal userId) (b, n) := by
  funext c
  cases c with
  | tenant t => simp [Db.usage, Db.incrementUserStorage, Ledger.post]
  | personal u =>
    simp only [Db.usage, Db.incrementUserStorage, Ledger.post, Counter.personal.injEq,
      Table.find?_upsert]
    by_cases hu : u = userId
    · subst hu
      cases db.users.find? u <;> simp [freeQuotaValues, exactIncrement]
    · simp [freeQuotaValues, hu, Ne.symm hu]

theorem usage_incrementTenantStorage {db db' : Db} {tenantId : Uuid} {b n : Int}
    (h : db.incrementTenantStorage exactIncrement tenantId b n = some db') :
    db'.usage = Ledger.post db.usage (.tenant tenantId) (b, n) := by
  unfold Db.incrementTenantStorage at h
  split at h
  · cases h
  · rename_i row ht
    cases h
    funext c
    cases c with
    | personal u => simp [Db.usage, Ledger.post]
    | tenant t =>
      simp only [Db.usage, Ledger.post, Counter.tenant.injEq, Table.find?_update]
      by_cases e : t = tenantId
      · subst e; simp [ht, exactIncrement]
      · simp [e, Ne.symm e]

theorem usage_moveCounter {db db' : Db} {ownerId : String} {tenantId : Option Uuid} {b n : Int}
    (h : db.moveCounter exactIncrement ownerId tenantId b n = some db') :
    db'.usage = Ledger.post db.usage (counterOf ownerId tenantId) (b, n) := by
  unfold Db.moveCounter at h
  split at h
  · rename_i zero
    cases h
    rw [zero.1, zero.2]
    exact (Ledger.post_zero _ _).symm
  · cases tenantId with
    | some t => exact usage_incrementTenantStorage h
    | none => cases h; exact usage_incrementUserStorage db ownerId b n

/-! ## The clamp -/

theorem clampedIncrement_eq {column : Option Int} {delta : Int} (h : 0 ≤ column.getD 0 + delta) :
    clampedIncrement column delta = exactIncrement column delta :=
  max_eq_right h

theorem incrementUserStorage_clamped {db : Db} {userId : String} {b n : Int}
    (h : 0 ≤ db.usage (.personal userId) + (b, n)) :
    db.incrementUserStorage clampedIncrement userId b n =
      db.incrementUserStorage exactIncrement userId b n := by
  unfold Db.incrementUserStorage
  congr 1
  cases hq : db.users.find? userId with
  | none =>
    have room : 0 ≤ b ∧ 0 ≤ n := by simpa [Db.usage, hq, Prod.le_def] using h
    apply Table.ext_rows
    rw [Table.upsert_of_find?_none (by exact hq), Table.upsert_of_find?_none (by exact hq),
      clampedIncrement_eq (by simpa using room.1), clampedIncrement_eq (by simpa using room.2)]
  | some q =>
    have room : 0 ≤ q.storageUsedBytes + b ∧ 0 ≤ q.documentCount + n := by
      simpa [Db.usage, hq, Prod.le_def] using h
    rw [Table.upsert_of_find?_some (by exact hq), Table.upsert_of_find?_some (by exact hq)]
    apply Table.update_congr
    intro r hr
    cases hr.symm.trans hq
    rw [clampedIncrement_eq room.1, clampedIncrement_eq room.2]

theorem incrementTenantStorage_clamped {db : Db} {tenantId : Uuid} {b n : Int}
    (h : 0 ≤ db.usage (.tenant tenantId) + (b, n)) :
    db.incrementTenantStorage clampedIncrement tenantId b n =
      db.incrementTenantStorage exactIncrement tenantId b n := by
  unfold Db.incrementTenantStorage
  cases ht : db.tenants.find? tenantId with
  | none => rfl
  | some t =>
    have room : 0 ≤ t.storageUsedBytes + b ∧ 0 ≤ t.documentCount + n := by
      simpa [Db.usage, ht, Prod.le_def] using h
    simp only [Option.some.injEq]
    congr 1
    apply Table.update_congr
    intro r hr
    cases hr.symm.trans ht
    rw [clampedIncrement_eq room.1, clampedIncrement_eq room.2]

/-- The clamp does nothing where the counter covers the move. -/
theorem moveCounter_clamped {db : Db} {ownerId : String} {tenantId : Option Uuid} {b n : Int}
    (h : 0 ≤ db.usage (counterOf ownerId tenantId) + (b, n)) :
    db.moveCounter clampedIncrement ownerId tenantId b n =
      db.moveCounter exactIncrement ownerId tenantId b n := by
  unfold Db.moveCounter
  split
  · rfl
  · cases tenantId with
    | some t => exact incrementTenantStorage_clamped h
    | none => exact congrArg some (incrementUserStorage_clamped h)

end GigaPdf
