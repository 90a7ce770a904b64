import GigaPdf.Storage.Counters

/-!
# Recounting

`quota_reconciliation.py` without other transactions: the sums of the active documents, the counters
that differ from them, and the writes that set these counters.
-/

namespace GigaPdf

/-- `kind` and `key` are the counter. -/
structure CounterDrift where
  counter : Counter
  stored : Usage
  actual : Usage
  rowMissing : Bool
deriving DecidableEq

/-! ## Reading -/

def Db.actualPersonal (db : Db) : List (String × Usage) :=
  tallyDocuments (·.ownerId)
    (db.documents.rows.filter fun d => !d.isDeleted && d.quotaTenantId.isNone)

def Db.storedPersonal (db : Db) : List (String × Usage) :=
  db.users.rows.map fun q => (q.userId, q.storageUsedBytes, q.documentCount)

def personalDrifts (actual stored : List (String × Usage)) : List CounterDrift :=
  ((stored.map (·.1) ∪ actual.map (·.1)).insertionSort (· ≤ ·)).filterMap fun userId =>
    let storedValue := (Tally.get stored userId).getD 0
    let actualValue := (Tally.get actual userId).getD 0
    if storedValue = actualValue then none
    else some ⟨.personal userId, storedValue, actualValue, (Tally.get stored userId).isNone⟩

def Db.actualTenants (db : Db) : List (Option Uuid × Usage) :=
  tallyDocuments (·.quotaTenantId)
    (db.documents.rows.filter fun d => !d.isDeleted && d.quotaTenantId.isSome)

def Db.storedTenants (db : Db) : List (Uuid × Usage) :=
  db.tenants.rows.map fun t => (t.id, t.storageUsedBytes, t.documentCount)

def tenantDrifts (actual : List (Option Uuid × Usage)) (stored : List (Uuid × Usage)) :
    List CounterDrift :=
  (stored.insertionSort fun a b => a.1.text ≤ b.1.text).filterMap fun tenant =>
    let actualValue := (Tally.get actual (some tenant.1)).getD 0
    if tenant.2 = actualValue then none
    else some ⟨.tenant tenant.1, tenant.2, actualValue, false⟩

/-! ## Writing -/

/-- `updatedAt` is `tenants.updated_at`, which every `UPDATE` of an organization sets. -/
structure Accounts where
  db : Db
  updatedAt : Uuid → Time

def UserQuota.setCounters (q : UserQuota) (value : Usage) : UserQuota :=
  { q with storageUsedBytes := value.1, documentCount := value.2 }

def Tenant.setCounters (t : Tenant) (value : Usage) : Tenant :=
  { t with storageUsedBytes := value.1, documentCount := value.2 }

theorem UserQuota.userId_setCounters (q : UserQuota) (value : Usage) :
    (q.setCounters value).userId = q.userId := rfl

theorem Tenant.id_setCounters (t : Tenant) (value : Usage) : (t.setCounters value).id = t.id := rfl

/-- `_correct`. -/
def Accounts.correct (a : Accounts) (now : Time) (drift : CounterDrift) : Accounts :=
  match drift.counter with
  | .tenant id =>
    { db :=
        { a.db with
          tenants := a.db.tenants.update id (·.setCounters drift.actual)
            fun t => t.id_setCounters drift.actual }
      updatedAt := Function.update a.updatedAt id now }
  | .personal userId =>
    { a with
      db :=
        { a.db with
          users := a.db.users.upsert ((freeQuotaValues userId).setCounters drift.actual)
            (·.setCounters drift.actual) fun q => q.userId_setCounters drift.actual } }

def Accounts.correctAll (a : Accounts) (now : Time) (drifts : List CounterDrift) : Accounts :=
  drifts.foldl (fun a drift => a.correct now drift) a

/-- The run of `scripts/reconcile_quota_counters.py`, with its commit or rollback. -/
def reconcileStorageCounters (a : Accounts) (now : Time) (apply : Bool) :
    Accounts × List CounterDrift :=
  let drifts := personalDrifts a.db.actualPersonal a.db.storedPersonal ++
    tenantDrifts a.db.actualTenants a.db.storedTenants
  (if apply then a.correctAll now drifts else a, drifts)

/-! ## The sums -/

theorem actualPersonal_eq (db : Db) (userId : String) :
    (Tally.get db.actualPersonal userId).getD 0 = db.recorded (.personal userId) := by
  rw [Db.actualPersonal, tallyDocuments, Tally.getD_tally_filter]
  refine congrArg List.sum (List.map_congr_left fun d _ => ?_)
  cases deleted : d.isDeleted with
  | true => simp [weight_trashed deleted]
  | false =>
    cases tenant : d.quotaTenantId with
    | none => simp [weight_active deleted, StoredDocument.counter, counterOf, tenant]
    | some t => simp [StoredDocument.counter, counterOf, tenant]

theorem actualTenants_eq (db : Db) (id : Uuid) :
    (Tally.get db.actualTenants (some id)).getD 0 = db.recorded (.tenant id) := by
  rw [Db.actualTenants, tallyDocuments, Tally.getD_tally_filter]
  refine congrArg List.sum (List.map_congr_left fun d _ => ?_)
  cases deleted : d.isDeleted with
  | true => simp [weight_trashed deleted]
  | false =>
    cases tenant : d.quotaTenantId with
    | none => simp [StoredDocument.counter, counterOf, tenant]
    | some t => simp [weight_active deleted, StoredDocument.counter, counterOf, tenant]

theorem storedPersonal_eq (db : Db) (userId : String) :
    Tally.get db.storedPersonal userId =
      (db.users.find? userId).map fun q => (q.storageUsedBytes, q.documentCount) := by
  rw [Tally.get, Db.storedPersonal, List.find?_map, Option.map_map]
  rfl

theorem mem_personalDrifts {db : Db} {drift : CounterDrift} :
    drift ∈ personalDrifts db.actualPersonal db.storedPersonal ↔ ∃ userId,
      db.usage (.personal userId) ≠ db.recorded (.personal userId) ∧
      drift = ⟨.personal userId, db.usage (.personal userId), db.recorded (.personal userId),
        (db.users.find? userId).isNone⟩ := by
  have usage (userId : String) : (Tally.get db.storedPersonal userId).getD 0 =
      db.usage (.personal userId) := by
    rw [storedPersonal_eq]
    rfl
  simp only [personalDrifts, List.mem_filterMap, List.mem_insertionSort, actualPersonal_eq,
    storedPersonal_eq, Option.isNone_map, Option.ite_none_left_eq_some, Option.some.injEq]
  constructor
  · rintro ⟨userId, -, wrong, rfl⟩
    exact ⟨userId, wrong, rfl⟩
  · rintro ⟨userId, wrong, rfl⟩
    refine ⟨userId, ?_, wrong, rfl⟩
    -- A user whom neither query lists counts nothing and has nothing.
    refine Classical.byContradiction fun missing => wrong ?_
    rw [List.mem_union_iff, not_or] at missing
    have absent {d : List (String × Usage)} (h : userId ∉ d.map (·.1)) :
        (Tally.get d userId).getD 0 = 0 := by
      have none_found : (d.find? fun e => e.1 = userId) = none :=
        List.find?_eq_none.mpr fun e he same =>
          h (List.mem_map.mpr ⟨e, he, of_decide_eq_true same⟩)
      rw [Tally.get, none_found]
      rfl
    rw [← usage, ← actualPersonal_eq, absent missing.1, absent missing.2]

theorem mem_tenantDrifts {db : Db} {drift : CounterDrift} :
    drift ∈ tenantDrifts db.actualTenants db.storedTenants ↔ ∃ id, db.Counts (.tenant id) ∧
      db.usage (.tenant id) ≠ db.recorded (.tenant id) ∧
      drift = ⟨.tenant id, db.usage (.tenant id), db.recorded (.tenant id), false⟩ := by
  have usage {t : Tenant} (h : t ∈ db.tenants.rows) :
      db.usage (.tenant t.id) = (t.storageUsedBytes, t.documentCount) := by
    rw [Db.usage, Table.find?_of_mem h]
    rfl
  simp only [tenantDrifts, List.mem_filterMap, List.mem_insertionSort, actualTenants_eq,
    Db.storedTenants, List.mem_map, Option.ite_none_left_eq_some, Option.some.injEq]
  constructor
  · rintro ⟨-, ⟨t, ht, rfl⟩, wrong, rfl⟩
    refine ⟨t.id, ?_, ?_, ?_⟩
    · rw [Db.Counts, Table.find?_of_mem ht]
      rfl
    · rw [usage ht]
      exact wrong
    · rw [usage ht]
  · rintro ⟨id, row, wrong, rfl⟩
    obtain ⟨t, found⟩ := Option.isSome_iff_exists.mp row
    obtain ⟨ht, rfl⟩ := Table.find?_eq_some.mp found
    rw [usage ht] at wrong ⊢
    exact ⟨_, ⟨t, ht, rfl⟩, wrong, rfl⟩

/-! ## What the drifts say -/

/-- A counter that drifts is listed with its recount, one that is not listed is right. -/
structure Found (db : Db) (drifts : List CounterDrift) (c : Counter) : Prop where
  actual : ∀ d ∈ drifts, d.counter = c → d.actual = db.recorded c
  right : (∀ d ∈ drifts, d.counter ≠ c) → db.usage c = db.recorded c
  wrong : ∀ d ∈ drifts, d.counter = c → d.rowMissing = false → db.usage c ≠ db.recorded c
  missing : ∀ d ∈ drifts, d.counter = c → d.rowMissing = true →
    db.recorded c ≠ 0 ∧ ∃ userId, c = .personal userId

theorem found_personalDrifts (db : Db) (userId : String) :
    Found db (personalDrifts db.actualPersonal db.storedPersonal) (.personal userId) := by
  constructor
  · intro d hd hc
    obtain ⟨_, -, rfl⟩ := mem_personalDrifts.mp hd
    cases hc
    rfl
  · intro unlisted
    refine Classical.byContradiction fun wrong => ?_
    exact unlisted _ (mem_personalDrifts.mpr ⟨userId, wrong, rfl⟩) rfl
  · intro d hd hc _
    obtain ⟨_, wrong, rfl⟩ := mem_personalDrifts.mp hd
    cases hc
    exact wrong
  · intro d hd hc row
    obtain ⟨_, wrong, rfl⟩ := mem_personalDrifts.mp hd
    cases hc
    refine ⟨fun zero => wrong ?_, userId, rfl⟩
    rw [zero, Db.usage, Option.isNone_iff_eq_none.mp row]
    rfl

theorem found_tenantDrifts {db : Db} {id : Uuid} (row : db.Counts (.tenant id)) :
    Found db (tenantDrifts db.actualTenants db.storedTenants) (.tenant id) := by
  constructor
  · intro d hd hc
    obtain ⟨_, -, -, rfl⟩ := mem_tenantDrifts.mp hd
    cases hc
    rfl
  · intro unlisted
    refine Classical.byContradiction fun wrong => ?_
    exact unlisted _ (mem_tenantDrifts.mpr ⟨id, row, wrong, rfl⟩) rfl
  · intro d hd hc _
    obtain ⟨_, -, wrong, rfl⟩ := mem_tenantDrifts.mp hd
    cases hc
    exact wrong
  · intro d hd hc missing
    obtain ⟨_, -, -, rfl⟩ := mem_tenantDrifts.mp hd
    cases missing

theorem personalDrifts_counter {actual stored : List (String × Usage)} {d : CounterDrift}
    (h : d ∈ personalDrifts actual stored) : ∃ userId, d.counter = .personal userId := by
  obtain ⟨userId, -, hd⟩ := List.mem_filterMap.mp h
  obtain ⟨-, same⟩ := Option.ite_none_left_eq_some.mp hd
  cases same
  exact ⟨userId, rfl⟩

theorem tenantDrifts_counter {actual : List (Option Uuid × Usage)} {stored : List (Uuid × Usage)}
    {d : CounterDrift} (h : d ∈ tenantDrifts actual stored) :
    d.rowMissing = false ∧ ∃ tenant ∈ stored, d.counter = .tenant tenant.1 := by
  obtain ⟨tenant, mem, hd⟩ := List.mem_filterMap.mp h
  obtain ⟨-, same⟩ := Option.ite_none_left_eq_some.mp hd
  cases same
  exact ⟨rfl, tenant, List.mem_insertionSort _ |>.mp mem, rfl⟩

theorem Found.append_left {db : Db} {drifts others : List CounterDrift} {c : Counter}
    (found : Found db drifts c) (unlisted : ∀ d ∈ others, d.counter ≠ c) :
    Found db (drifts ++ others) c := by
  have listed {d : CounterDrift} (hd : d ∈ drifts ++ others) (hc : d.counter = c) : d ∈ drifts :=
    (List.mem_append.mp hd).resolve_right fun mem => unlisted d mem hc
  refine ⟨fun d hd hc => found.actual d (listed hd hc) hc, fun none_listed => ?_,
    fun d hd hc => found.wrong d (listed hd hc) hc, fun d hd hc => found.missing d (listed hd hc) hc⟩
  exact found.right fun d hd => none_listed d (List.mem_append_left _ hd)

theorem Found.append_right {db : Db} {drifts others : List CounterDrift} {c : Counter}
    (found : Found db drifts c) (unlisted : ∀ d ∈ others, d.counter ≠ c) :
    Found db (others ++ drifts) c := by
  have listed {d : CounterDrift} (hd : d ∈ others ++ drifts) (hc : d.counter = c) : d ∈ drifts :=
    (List.mem_append.mp hd).resolve_left fun mem => unlisted d mem hc
  refine ⟨fun d hd hc => found.actual d (listed hd hc) hc, fun none_listed => ?_,
    fun d hd hc => found.wrong d (listed hd hc) hc, fun d hd hc => found.missing d (listed hd hc) hc⟩
  exact found.right fun d hd => none_listed d (List.mem_append_right _ hd)

/-! ## The corrected counters -/

theorem correct_frame (a : Accounts) (now : Time) (drift : CounterDrift) :
    CountersMoved a.db (a.correct now drift).db := by
  unfold Accounts.correct
  cases drift.counter with
  | personal userId => exact ⟨rfl, rfl, rfl, rfl, rfl, fun _ => rfl⟩
  | tenant id =>
    refine ⟨rfl, rfl, rfl, rfl, rfl, fun t => ?_⟩
    rw [Table.find?_update]
    by_cases e : t = id
    · subst e
      simp
    · simp [e]

section
variable {now : Time} {drifts : List CounterDrift} {value : Usage}

theorem correctAll_frame (a : Accounts) : CountersMoved a.db (a.correctAll now drifts).db := by
  induction drifts generalizing a with
  | nil => exact .refl a.db
  | cons d rest ih => exact (correct_frame a now d).trans (ih _)

theorem correct_users (a : Accounts) (d : CounterDrift) (userId : String) :
    (a.correct now d).db.users.find? userId =
      if d.counter = .personal userId then
        some (((a.db.users.find? userId).getD (freeQuotaValues userId)).setCounters d.actual)
      else a.db.users.find? userId := by
  unfold Accounts.correct
  cases d.counter with
  | tenant id => simp
  | personal other =>
    simp only [Table.find?_upsert, UserQuota.setCounters, freeQuotaValues, Counter.personal.injEq]
    by_cases same : userId = other
    · subst same
      cases a.db.users.find? userId <;> simp
    · rw [if_neg same, if_neg (Ne.symm same)]

theorem correctAll_users (a : Accounts) {userId : String}
    (actual : ∀ d ∈ drifts, d.counter = .personal userId → d.actual = value) :
    (a.correctAll now drifts).db.users.find? userId =
      if ∃ d ∈ drifts, d.counter = .personal userId then
        some (((a.db.users.find? userId).getD (freeQuotaValues userId)).setCounters value)
      else a.db.users.find? userId := by
  induction drifts generalizing a with
  | nil => simp [Accounts.correctAll]
  | cons d rest ih =>
    obtain ⟨first, others⟩ := List.forall_mem_cons.mp actual
    have later := ih (a.correct now d) others
    rw [correct_users] at later
    change ((a.correct now d).correctAll now rest).db.users.find? userId = _
    rw [later]
    by_cases here : d.counter = .personal userId
    · simp [here, first here, UserQuota.setCounters]
    · simp [here]

theorem correct_tenants (a : Accounts) (d : CounterDrift) (id : Uuid) :
    (a.correct now d).db.tenants.find? id =
      if d.counter = .tenant id then (a.db.tenants.find? id).map (·.setCounters d.actual)
      else a.db.tenants.find? id := by
  unfold Accounts.correct
  cases d.counter with
  | personal userId => simp
  | tenant other =>
    simp only [Table.find?_update, Counter.tenant.injEq]
    by_cases same : id = other
    · subst same
      simp
    · rw [if_neg same, if_neg (Ne.symm same)]

theorem correctAll_tenants (a : Accounts) {id : Uuid}
    (actual : ∀ d ∈ drifts, d.counter = .tenant id → d.actual = value) :
    (a.correctAll now drifts).db.tenants.find? id =
      if ∃ d ∈ drifts, d.counter = .tenant id then
        (a.db.tenants.find? id).map (·.setCounters value)
      else a.db.tenants.find? id := by
  induction drifts generalizing a with
  | nil => simp [Accounts.correctAll]
  | cons d rest ih =>
    obtain ⟨first, others⟩ := List.forall_mem_cons.mp actual
    have later := ih (a.correct now d) others
    rw [correct_tenants] at later
    change ((a.correct now d).correctAll now rest).db.tenants.find? id = _
    rw [later]
    by_cases here : d.counter = .tenant id
    · cases a.db.tenants.find? id <;> simp [here, first here, Tenant.setCounters]
    · simp [here]

theorem correctAll_updatedAt (a : Accounts) (id : Uuid) :
    (a.correctAll now drifts).updatedAt id =
      if ∃ d ∈ drifts, d.counter = .tenant id then now else a.updatedAt id := by
  induction drifts generalizing a with
  | nil => simp [Accounts.correctAll]
  | cons d rest ih =>
    have later := ih (a.correct now d)
    change ((a.correct now d).correctAll now rest).updatedAt id = _
    rw [later]
    have first : (a.correct now d).updatedAt id =
        if d.counter = .tenant id then now else a.updatedAt id := by
      unfold Accounts.correct
      cases d.counter with
      | personal userId => simp
      | tenant other =>
        by_cases same : id = other
        · simp [same]
        · simp [Function.update_of_ne same, Ne.symm same]
    rw [first]
    by_cases here : d.counter = .tenant id
    · simp [here]
    · simp [here]

end

/-- Each counter is set to its recount; a quota is created where one is counted and none is there.
`updated_at` changes where the counter of an organization does. -/
structure Repaired (a a' : Accounts) (now : Time) : Prop where
  frame : CountersMoved a.db a'.db
  users : ∀ userId, a'.db.users.find? userId =
    match a.db.users.find? userId with
    | some q => some (q.setCounters (a.db.recorded (.personal userId)))
    | none =>
      if a.db.recorded (.personal userId) = 0 then none
      else some ((freeQuotaValues userId).setCounters (a.db.recorded (.personal userId)))
  tenants : ∀ id, a'.db.tenants.find? id =
    (a.db.tenants.find? id).map (·.setCounters (a.db.recorded (.tenant id)))
  updatedAt : ∀ id, (a.db.tenants.find? id).isSome → a'.updatedAt id =
    if a.db.usage (.tenant id) = a.db.recorded (.tenant id) then a.updatedAt id else now

theorem correctAll_repaired {a : Accounts} {drifts : List CounterDrift}
    (found : ∀ c, a.db.Counts c → Found a.db drifts c) (now : Time) :
    Repaired a (a.correctAll now drifts) now := by
  refine ⟨correctAll_frame a, fun userId => ?_, fun id => ?_, fun id row => ?_⟩
  · have user := found (.personal userId) trivial
    rw [correctAll_users a user.actual]
    by_cases listed : ∃ d ∈ drifts, d.counter = .personal userId
    · rw [if_pos listed]
      obtain ⟨d, hd, hc⟩ := listed
      cases row : a.db.users.find? userId with
      | some q => rfl
      | none =>
        have counted : a.db.recorded (.personal userId) ≠ 0 := by
          cases missing : d.rowMissing with
          | true => exact (user.missing d hd hc missing).1
          | false =>
            have wrong := user.wrong d hd hc missing
            rw [Db.usage, row] at wrong
            exact Ne.symm wrong
        simp only [Option.getD_none]
        rw [if_neg counted]
    · rw [if_neg listed]
      have right := user.right fun d hd hc => listed ⟨d, hd, hc⟩
      cases row : a.db.users.find? userId with
      | some q =>
        rw [← right, Db.usage, row]
        rfl
      | none =>
        have zero : a.db.recorded (.personal userId) = 0 := by
          rw [← right, Db.usage, row]
          rfl
        simp only
        rw [if_pos zero]
  · cases row : a.db.tenants.find? id with
    | none =>
      have moved : ((a.correctAll now drifts).db.tenants.find? id).isSome = _ :=
        (correctAll_frame a).tenants id
      rw [row, Option.isSome_none, Option.isSome_eq_false_iff, Option.isNone_iff_eq_none] at moved
      rw [moved]
      rfl
    | some t =>
      have tenant := found (.tenant id) (by rw [Db.Counts, row]; rfl)
      rw [correctAll_tenants a tenant.actual, row]
      by_cases listed : ∃ d ∈ drifts, d.counter = .tenant id
      · rw [if_pos listed]
      · rw [if_neg listed, ← tenant.right fun d hd hc => listed ⟨d, hd, hc⟩, Db.usage, row]
        rfl
  · have tenant := found (.tenant id) row
    rw [correctAll_updatedAt]
    by_cases listed : ∃ d ∈ drifts, d.counter = .tenant id
    · rw [if_pos listed]
      obtain ⟨d, hd, hc⟩ := listed
      have row_there : d.rowMissing = false := by
        refine Bool.eq_false_iff.mpr fun missing => ?_
        obtain ⟨-, userId, other⟩ := tenant.missing d hd hc missing
        cases other
      rw [if_neg (tenant.wrong d hd hc row_there)]
    · rw [if_neg listed, if_pos (tenant.right fun d hd hc => listed ⟨d, hd, hc⟩)]

theorem Repaired.exact {a a' : Accounts} {now : Time} (repaired : Repaired a a' now) {c : Counter}
    (counts : a'.db.Counts c) : a'.db.usage c = a'.db.recorded c := by
  rw [repaired.frame.recorded]
  cases c with
  | personal userId =>
    rw [Db.usage, repaired.users]
    cases a.db.users.find? userId with
    | some q => rfl
    | none =>
      simp only
      split
      · rename_i zero
        exact zero.symm
      · rfl
  | tenant id =>
    rw [Db.Counts, repaired.frame.tenants] at counts
    obtain ⟨t, row⟩ := Option.isSome_iff_exists.mp counts
    rw [Db.usage, repaired.tenants, row]
    rfl

/-- A counter that is right is not listed. -/
theorem reconcile_of_exact {a : Accounts} (exact : ∀ c, a.db.Counts c → a.db.usage c = a.db.recorded c)
    (now : Time) (apply : Bool) : reconcileStorageCounters a now apply = (a, []) := by
  have personal : personalDrifts a.db.actualPersonal a.db.storedPersonal = [] := by
    refine List.eq_nil_iff_forall_not_mem.mpr fun d hd => ?_
    obtain ⟨userId, wrong, -⟩ := mem_personalDrifts.mp hd
    exact wrong (exact _ trivial)
  have tenants : tenantDrifts a.db.actualTenants a.db.storedTenants = [] := by
    refine List.eq_nil_iff_forall_not_mem.mpr fun d hd => ?_
    obtain ⟨id, row, wrong, -⟩ := mem_tenantDrifts.mp hd
    exact wrong (exact _ row)
  rw [reconcileStorageCounters, personal, tenants]
  cases apply <;> rfl

end GigaPdf
