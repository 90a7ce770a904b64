import GigaPdf.Storage.QuotaRuns

/-!
# Quota checks and concurrent charges

An upload or a duplicate reads the effective limits, checks them, uploads, and charges the
counter in a transaction of its own. Other requests charge the same counter in between, and
the charge does not check again.
-/

namespace GigaPdf

/-- Storage and document limit of a counter that exists. -/
def Db.limitsOf (db : Db) : Counter → Option (Int × Int)
  | .personal userId =>
    (db.users.find? userId).map fun q => (q.storageLimitBytes, q.documentLimit)
  | .tenant id => (db.tenants.find? id).map fun t => (t.storageLimitBytes, t.documentLimit)

/-- A finite limit of the counter is not exceeded. -/
def WithinLimits (db : Db) (c : Counter) : Prop :=
  ∀ limits ∈ db.limitsOf c,
    (limits.1 ≠ UNLIMITED → (db.usage c).1 ≤ limits.1) ∧
      (limits.2 ≠ UNLIMITED → (db.usage c).2 ≤ limits.2)

instance (db : Db) (c : Counter) : Decidable (WithinLimits db c) := by
  unfold WithinLimits
  infer_instance

/-- The counter that a user's charge under some limits goes to. -/
def EffectiveLimits.counter (limits : EffectiveLimits) (userId : String) : Counter :=
  counterOf userId limits.chargedTenant

/-- The same limits with what the counter holds by now. -/
def EffectiveLimits.refreshed (limits : EffectiveLimits) (db : Db) (userId : String) :
    EffectiveLimits :=
  { limits with
    storageUsedBytes := (db.usage (limits.counter userId)).1
    documentCount := (db.usage (limits.counter userId)).2 }

/-- The world, and the limits that requests have read and not charged yet. -/
structure Admission where
  world : World
  reads : List (String × EffectiveLimits)

def Admission.start (w : World) : Admission := ⟨w, []⟩

/-- Who charges a new document, under which limits. -/
def Request.charge : Request → Option (String × EffectiveLimits)
  | .saveDocument userId _ _ _ limits _ => some (userId, limits)
  | .duplicate userId _ limits _ => some (userId, limits)
  | _ => none

inductive AdmissionStep
  | readLimits (userId : String)
  | request (r : Request)

section
variable (services : Services)

def Admission.step (σ : Admission) : AdmissionStep → Option Admission
  | .readLimits userId =>
    let db := σ.world.db.getOrCreateQuota userId
    (db.getEffectiveLimits userId).map fun limits =>
      ⟨σ.world.withDb db, (userId, limits) :: σ.reads⟩
  | .request r =>
    r.charge.bind fun read =>
      if read ∈ σ.reads then
        (handle services clampedIncrement σ.world r).map fun w => ⟨w, σ.reads.erase read⟩
      else none

end

/-- At the charge, the check on the limits would still pass. -/
def roomLeft (σ : Admission) : AdmissionStep → Prop
  | .request (.saveDocument userId _ file _ limits _) =>
    (limits.refreshed σ.world.db userId).admits file.data.length = true
  | .request (.duplicate userId documentId limits _) =>
    ∀ source ∈ σ.world.db.activeDocument documentId userId,
      (limits.refreshed σ.world.db userId).admits source.size = true
  | _ => True

instance (σ : Admission) (step : AdmissionStep) : Decidable (roomLeft σ step) := by
  unfold roomLeft
  split <;> infer_instance

/-! ## What the check says -/

/-- The check passes exactly when the counter has room for one more document of this size. -/
theorem admits_iff (limits : EffectiveLimits) (size : Nat) :
    limits.admits size = true ↔
      (limits.storageLimitBytes ≠ UNLIMITED →
        limits.storageUsedBytes + size ≤ limits.storageLimitBytes) ∧
      (limits.documentLimit ≠ UNLIMITED → limits.documentCount + 1 ≤ limits.documentLimit) := by
  have bound : ∀ (p : Prop) [Decidable p] (a b : Int), (!(decide p && decide (a > b))) = true ↔
      (p → a ≤ b) := by
    intro p _ a b
    by_cases hp : p <;> simp [hp]
  have strict : ∀ (p : Prop) [Decidable p] (a b : Int), (!(decide p && decide (a ≥ b))) = true ↔
      (p → a + 1 ≤ b) := by
    intro p _ a b
    by_cases hp : p
    · simp only [hp, decide_true, Bool.true_and, Bool.not_eq_true', decide_eq_false_iff_not,
        true_implies]
      omega
    · simp [hp]
  rw [EffectiveLimits.admits, Bool.and_eq_true, bound, strict]
  rfl

/-- Nothing was charged since the limits were read: the check that passed still does. -/
theorem refreshed_admits {limits : EffectiveLimits} {db : Db} {userId : String} {size : Nat}
    (passed : limits.admits size = true)
    (unchanged : db.usage (limits.counter userId) = (limits.storageUsedBytes, limits.documentCount)) :
    (limits.refreshed db userId).admits size = true := by
  have same : limits.refreshed db userId = limits := by
    simp only [EffectiveLimits.refreshed, unchanged]
  rw [same]
  exact passed

/-! ## What a charge does -/

/-- Counters and limits only depend on the quota rows and the organizations. -/
theorem usage_congr {db db' : Db} (users : db'.users = db.users) (tenants : db'.tenants = db.tenants) :
    db'.usage = db.usage ∧ db'.limitsOf = db.limitsOf := by
  constructor <;> funext c <;> cases c <;> simp only [Db.usage, Db.limitsOf, users, tenants]

theorem addDocument_charge {increment : Increment} {db db' : Db} {d : StoredDocument}
    {v : DocumentVersion} {limits : EffectiveLimits}
    (h : db.addDocument increment d v limits = some db') :
    ∃ moved, db.moveCounter increment d.ownerId limits.chargedTenant d.size 1 = some moved ∧
      db'.users = moved.users ∧ db'.tenants = moved.tenants := by
  simp only [Db.addDocument, Option.bind_eq_bind, Option.bind_eq_some_iff] at h
  obtain ⟨⟨moved, d'⟩, hadjust, db₂, hdoc, hversion⟩ := h
  obtain ⟨_, hmove, heq⟩ := Option.map_eq_some_iff.mp hadjust
  cases heq
  obtain ⟨documents, -, rfl, -⟩ := insertDocument_spec hdoc
  obtain ⟨versions, -, rfl, -⟩ := insertVersion_spec hversion
  exact ⟨moved, hmove, rfl, rfl⟩

/-- A request that is admitted charges its counter once, with room for it, or nothing. -/
theorem charge_spec {services : Services} {increment : Increment} {σ : Admission} {w' : World}
    {r : Request} {userId : String} {limits : EffectiveLimits}
    (charge : r.charge = some (userId, limits)) (room : roomLeft σ (.request r))
    (hw : handle services increment σ.world r = some w') :
    w'.db = σ.world.db ∨ ∃ size : Nat, (limits.refreshed σ.world.db userId).admits size = true ∧
      ∃ moved, σ.world.db.moveCounter increment userId limits.chargedTenant size 1 = some moved ∧
        w'.db.users = moved.users ∧ w'.db.tenants = moved.tenants := by
  cases r with
  | saveDocument user name file folderId limits id =>
    cases charge
    obtain ⟨-, pageCount, rfl⟩ := saveDocument_spec hw
    unfold World.rowsForUploadedObject
    split
    · rename_i db hadd
      exact .inr ⟨_, room, addDocument_charge hadd⟩
    · exact .inl rfl
  | duplicate user documentId limits id =>
    cases charge
    obtain ⟨-, source, version, data, dek, hsource, -, -, rfl⟩ := duplicate_spec hw
    unfold World.rowsForUploadedObject
    split
    · rename_i db hadd
      exact .inr ⟨_, room source hsource, addDocument_charge hadd⟩
    · exact .inl rfl
  | _ => cases charge

theorem incrementTenantStorage_limits {increment : Increment} {db db' : Db} {tenantId : Uuid}
    {b n : Int} (h : db.incrementTenantStorage increment tenantId b n = some db') :
    db'.limitsOf = db.limitsOf := by
  unfold Db.incrementTenantStorage at h
  split at h
  · cases h
  · cases h
    funext c
    cases c with
    | personal u => rfl
    | tenant t =>
      simp only [Db.limitsOf, Table.find?_update]
      split
      · rename_i e
        subst e
        cases db.tenants.find? t <;> rfl
      · rfl

theorem incrementUserStorage_limits {increment : Increment} (db : Db) (userId : String) (b n : Int)
    (c : Counter) : (db.incrementUserStorage increment userId b n).limitsOf c = db.limitsOf c ∨
      c = .personal userId ∧ db.limitsOf c = none := by
  cases c with
  | tenant t => exact .inl rfl
  | personal u =>
    simp only [Db.limitsOf, Db.incrementUserStorage, Table.find?_upsert]
    by_cases e : u = userId
    · subst e
      cases hq : db.users.find? u with
      | none => exact .inr ⟨rfl, rfl⟩
      | some q => simp [freeQuotaValues]
    · simp [freeQuotaValues, e]

/-- A move of a counter leaves the limits of the counters that exist. -/
theorem moveCounter_limits {increment : Increment} {db moved : Db} {ownerId : String}
    {tenantId : Option Uuid} {b n : Int}
    (h : db.moveCounter increment ownerId tenantId b n = some moved) (c : Counter) :
    moved.limitsOf c = db.limitsOf c ∨ c = counterOf ownerId tenantId ∧ db.limitsOf c = none := by
  unfold Db.moveCounter at h
  split at h
  · cases h
    exact .inl rfl
  · cases tenantId with
    | some t => exact .inl (congrFun (incrementTenantStorage_limits h) c)
    | none =>
      cases h
      exact incrementUserStorage_limits db ownerId b n c

/-- The limits that a request reads are those of the counter it will charge. -/
theorem effectiveLimits_limitsOf {db : Db} {userId : String} {limits : EffectiveLimits}
    (h : db.getEffectiveLimits userId = some limits) :
    db.limitsOf (limits.counter userId) = some (limits.storageLimitBytes, limits.documentLimit) := by
  obtain ⟨quota, hquota, hlimits⟩ := Option.map_eq_some_iff.mp h
  split at hlimits
  · rename_i member tenant hmember
    subst hlimits
    have listed : (member, tenant) ∈ db.activeMemberships userId := by
      rcases Option.or_eq_some_iff.mp hmember with hfind | ⟨-, hhead⟩
      · exact List.mem_of_find?_eq_some hfind
      · exact List.mem_of_head? hhead
    obtain ⟨m, -, hm⟩ := List.mem_filterMap.mp ((List.mem_insertionSort _).mp listed)
    simp only [Option.ite_none_right_eq_some, Option.bind_eq_some_iff, Option.some.injEq,
      Prod.mk.injEq] at hm
    obtain ⟨-, t, hfind, -, -, rfl⟩ := hm
    have found := Table.find?_of_mem (Table.find?_eq_some.mp hfind).1
    change (db.tenants.find? t.id).map _ = _
    rw [found]
    rfl
  · subst hlimits
    have hid := (Table.find?_eq_some.mp hquota).2
    change (db.users.find? userId).map _ = _
    rw [hquota]
    rfl

/-! ## Runs -/

structure AdmissionSound (σ : Admission) : Prop where
  balanced : Balanced σ.world.db
  reads : ∀ read ∈ σ.reads, σ.world.db.limitsOf (read.2.counter read.1) =
    some (read.2.storageLimitBytes, read.2.documentLimit)

/-- A new quota row has the limits of the free plan, and no usage yet. -/
theorem getOrCreateQuota_limits (db : Db) (userId : String) (c : Counter) :
    (db.getOrCreateQuota userId).limitsOf c = db.limitsOf c ∨
      db.limitsOf c = none ∧ db.usage c = 0 ∧ (db.getOrCreateQuota userId).limitsOf c =
        some (freePlan.storageLimitBytes, freePlan.documentLimit) := by
  unfold Db.getOrCreateQuota
  split
  · rename_i users hins
    cases c with
    | tenant t => exact .inl rfl
    | personal u =>
      have free := (Table.insert?_eq_some.mp hins).1
      simp only [Db.limitsOf, Db.usage, Table.find?_insert? hins]
      split
      · rename_i e
        have none : db.users.find? u = none := e ▸ free
        rw [none]
        exact .inr ⟨rfl, rfl, rfl⟩
      · exact .inl rfl
  · exact .inl rfl

theorem AdmissionSound.readLimits {services : Services} {σ τ : Admission} (h : AdmissionSound σ)
    {userId : String} (hstep : σ.step services (.readLimits userId) = some τ) :
    AdmissionSound τ ∧ ∀ c, WithinLimits σ.world.db c → WithinLimits τ.world.db c := by
  obtain ⟨limits, hlimits, rfl⟩ := Option.map_eq_some_iff.mp hstep
  have usage := getOrCreateQuota_usage σ.world.db userId
  have change := getOrCreateQuota_limits σ.world.db userId
  refine ⟨⟨getOrCreateQuota_balanced h.balanced userId, fun read hread => ?_⟩, fun c within => ?_⟩
  · rcases List.mem_cons.mp hread with rfl | hread
    · exact effectiveLimits_limitsOf hlimits
    · have known := h.reads read hread
      rcases change (read.2.counter read.1) with same | ⟨missing, -⟩
      · exact same.trans known
      · rw [missing] at known
        cases known
  · intro limits hlimits
    change limits ∈ (σ.world.db.getOrCreateQuota userId).limitsOf c at hlimits
    change (_ → ((σ.world.db.getOrCreateQuota userId).usage c).1 ≤ _) ∧
      (_ → ((σ.world.db.getOrCreateQuota userId).usage c).2 ≤ _)
    rw [usage]
    rcases change c with same | ⟨-, zero, free⟩
    · exact within limits (same ▸ hlimits)
    · rw [free] at hlimits
      cases hlimits
      rw [zero]
      exact ⟨fun _ => by decide, fun _ => by decide⟩

theorem AdmissionSound.request {services : Services} {σ τ : Admission} (h : AdmissionSound σ)
    {r : Request} (room : roomLeft σ (.request r))
    (hstep : σ.step services (.request r) = some τ) :
    AdmissionSound τ ∧ ∀ c, WithinLimits σ.world.db c → WithinLimits τ.world.db c := by
  simp only [Admission.step, Option.bind_eq_some_iff, Option.ite_none_right_eq_some,
    Option.map_eq_some_iff] at hstep
  obtain ⟨⟨userId, limits⟩, hcharge, hread, w, hw, rfl⟩ := hstep
  obtain ⟨same, balanced⟩ := handle_settles services h.balanced r
  replace hw : handle services exactIncrement σ.world r = some w := same.symm.trans hw
  have known := h.reads _ hread
  have reads : ∀ read ∈ σ.reads.erase (userId, limits), read ∈ σ.reads :=
    fun read hmem => List.mem_of_mem_erase hmem
  rcases charge_spec hcharge room hw with unchanged | ⟨size, admits, moved, hmove, users, tenants⟩
  · refine ⟨⟨balanced w hw, fun read hmem => ?_⟩, fun c within => ?_⟩
    · rw [unchanged]
      exact h.reads read (reads read hmem)
    · rw [unchanged]
      exact within
  · obtain ⟨usage, limitsOf⟩ := usage_congr users tenants
    -- The counter that is charged exists: its limits were read.
    have kept : w.db.limitsOf = σ.world.db.limitsOf := by
      funext c
      rw [limitsOf]
      rcases moveCounter_limits hmove c with same | ⟨rfl, missing⟩
      · exact same
      · exact nomatch missing.symm.trans known
    refine ⟨⟨balanced w hw, fun read hmem => ?_⟩, fun c within => ?_⟩
    · rw [kept]
      exact h.reads read (reads read hmem)
    · intro finite hfinite
      rw [kept] at hfinite
      rw [usage, usage_moveCounter hmove, Ledger.post]
      by_cases charged : counterOf userId limits.chargedTenant = c
      · subst charged
        cases hfinite.symm.trans known
        rw [if_pos rfl]
        exact (admits_iff _ _).mp admits
      · rw [if_neg charged, add_zero]
        exact within finite hfinite

theorem AdmissionSound.step {services : Services} {σ τ : Admission} {step : AdmissionStep}
    (h : AdmissionSound σ) (room : roomLeft σ step) (hstep : σ.step services step = some τ) :
    AdmissionSound τ ∧ ∀ c, WithinLimits σ.world.db c → WithinLimits τ.world.db c := by
  cases step with
  | readLimits userId => exact h.readLimits hstep
  | request r => exact h.request room hstep

/-- Ana's quota with room for one more document. -/
def lastPlace : UserQuota := { freeQuotaValues "ana" with documentLimit := 1 }

def oneDocument : List Request := [.getOrCreateQuota "ana", .setUserPlan lastPlace]

/-- The limits that Ana's requests read while she has no document. -/
def lastPlaceLimits : EffectiveLimits := personalLimits lastPlace

end GigaPdf
