import GigaPdf.Lib.Runs
import GigaPdf.Storage.DocumentTransactions
import GigaPdf.Storage.QuotaRuns
import GigaPdf.Storage.Recount

/-!
# Reconciling under load

`reconcile_storage_counters` statement by statement, between the statements of transactions that
write documents and move counters. Its SHARE lock keeps them from writing documents, and they cannot
move a counter whose row it has locked.
-/

namespace GigaPdf

open Runs

/-- The times of change that the moves of a transaction write. -/
def DocumentTransaction.stamp (t : DocumentTransaction) (updatedAt : Uuid → Time) : Uuid → Time :=
  t.moves.foldl
    (fun updatedAt m =>
      match m.tenantId with
      | some id => if m.delta = 0 then updatedAt else Function.update updatedAt id t.now
      | none => updatedAt)
    updatedAt

def Accounts.commit (a : Accounts) (t : DocumentTransaction) : Option Accounts :=
  (t.commit a.db).map fun db => ⟨db, t.stamp a.updatedAt⟩

/-- What the reconciliation has read. It has `left` to correct, and has `failed` when a lock timed
out or a deadlock was broken. -/
inductive ReconciliationPhase
  | waiting
  | locked
  | summedPersonal (actual : List (String × Usage))
  | readPersonal (drifts : List CounterDrift)
  | summedTenants (drifts : List CounterDrift) (actual : List (Option Uuid × Usage))
  | correcting (drifts left : List CounterDrift)
  | done (drifts : List CounterDrift)
  | failed
deriving DecidableEq

def ReconciliationPhase.holdsLock : ReconciliationPhase → Bool
  | .waiting | .done _ | .failed => false
  | .locked | .summedPersonal _ | .readPersonal _ | .summedTenants .. | .correcting .. => true

/-- What is committed, the transactions that have not ended, and the counters whose rows the
reconciliation has locked. -/
structure Reconciliation where
  accounts : Accounts
  transactions : List DocumentTransaction
  phase : ReconciliationPhase
  held : List Counter

/-- A statement that has to wait for a lock is not a step. -/
inductive ReconciliationStep
  | start (now : Time)
  | write (n : Nat) (change : DocumentChange)
  | move (n : Nat) (m : CounterMove)
  | commit (n : Nat)
  | rollback (n : Nat)
  | reconcile
  | giveUp

def DocumentTransaction.hasMoved (t : DocumentTransaction) (c : Counter) : Bool :=
  t.moves.any fun m => m.counter = c

namespace Reconciliation

def initial (a : Accounts) : Reconciliation := ⟨a, [], .waiting, []⟩

/-- Some transaction has locked the row of one of the counters. -/
def moved (r : Reconciliation) (counters : List Counter) : Bool :=
  r.transactions.any fun t => counters.any t.hasMoved

section
variable (apply : Bool) (now : Time)

/-- The next statement of `reconcile_storage_counters`, and its commit or rollback. -/
def reconcile (r : Reconciliation) : Option Reconciliation :=
  match r.phase with
  | .waiting =>
    if r.transactions.any fun t => !t.changes.isEmpty then none else some { r with phase := .locked }
  | .locked => some { r with phase := .summedPersonal r.accounts.db.actualPersonal }
  | .summedPersonal actual =>
    let stored := r.accounts.db.storedPersonal
    let rows := stored.map fun user => Counter.personal user.1
    if r.moved rows then none
    else some { r with held := rows, phase := .readPersonal (personalDrifts actual stored) }
  | .readPersonal drifts =>
    some { r with phase := .summedTenants drifts r.accounts.db.actualTenants }
  | .summedTenants drifts actual =>
    let stored := r.accounts.db.storedTenants
    let rows := stored.map fun tenant => Counter.tenant tenant.1
    let drifts := drifts ++ tenantDrifts actual stored
    if r.moved rows then none
    else
      some
        { r with
          held := r.held ++ rows
          phase := .correcting drifts (if apply then drifts else []) }
  | .correcting drifts (drift :: left) =>
    if r.moved [drift.counter] then none
    else some { r with held := drift.counter :: r.held, phase := .correcting drifts left }
  | .correcting drifts [] =>
    some
      { r with
        accounts := if apply then r.accounts.correctAll now drifts else r.accounts
        held := []
        phase := .done drifts }
  | .done _ | .failed => none

def step (r : Reconciliation) : ReconciliationStep → Option Reconciliation
  | .start now => some { r with transactions := r.transactions ++ [⟨[], [], now⟩] }
  | .write n change => do
    let t ← r.transactions[n]?
    let others := r.transactions.eraseIdx n
    if r.phase.holdsLock || others.any fun o => o.changes.any fun c => c.id = change.id then none
    else some { r with transactions := r.transactions.set n { t with changes := t.changes ++ [change] } }
  | .move n m => do
    let t ← r.transactions[n]?
    let others := r.transactions.eraseIdx n
    if m.counter ∈ r.held || others.any fun o => o.hasMoved m.counter then none
    else some { r with transactions := r.transactions.set n { t with moves := t.moves ++ [m] } }
  | .commit n => do
    let t ← r.transactions[n]?
    let accounts ← r.accounts.commit t
    some { r with accounts := accounts, transactions := r.transactions.eraseIdx n }
  | .rollback n => some { r with transactions := r.transactions.eraseIdx n }
  | .reconcile => r.reconcile apply now
  | .giveUp =>
    match r.phase with
    | .done _ | .failed => none
    | _ => some { r with held := [], phase := .failed }

end

end Reconciliation

/-- Transactions move the counters by what their changes make of the sums. -/
def MatchingCommits (r : Reconciliation) : ReconciliationStep → Prop
  | .commit n => ∀ t ∈ r.transactions[n]?, t.Matches r.accounts.db
  | .start _ | .write .. | .move .. | .rollback _ | .reconcile | .giveUp => True

instance (r : Reconciliation) (s : ReconciliationStep) : Decidable (MatchingCommits r s) := by
  cases s <;> unfold MatchingCommits <;> infer_instance

/-! ## What is kept while the lock is held -/

/-- A transaction that writes no document does not change what was found about the counters. -/
theorem Found.commit {db db' : Db} {drifts : List CounterDrift} {c : Counter}
    {t : DocumentTransaction} {held : List Counter} (found : Found db drifts c)
    (matching : t.Matches db) (idle : t.changes = []) (apart : ∀ m ∈ t.moves, m.counter ∉ held)
    (locked : ∀ d ∈ drifts, d.rowMissing = false → d.counter ∈ held)
    (h : t.commit db = some db') : Found db' drifts c := by
  have moved : t.moves.foldlM CounterMove.apply db = some db' := by
    rwa [DocumentTransaction.commit, DocumentTransaction.writeDocuments, idle] at h
  have recorded := congrFun (moves_frame moved).recorded c
  constructor
  · intro d hd hc
    rw [recorded]
    exact found.actual d hd hc
  · intro unlisted
    exact DocumentTransaction.commit_exact matching h (found.right unlisted)
  · intro d hd hc row
    have unmoved : db'.usage c = db.usage c := by
      refine moves_usage_of_not_mem moved fun m hm same => apart m hm ?_
      rw [same, ← hc]
      exact locked d hd row
    rw [recorded, unmoved]
    exact found.wrong d hd hc row
  · intro d hd hc row
    rw [recorded]
    exact found.missing d hd hc row

/-- What is known of the counters in `scope` once they have been compared. -/
structure Compared (db : Db) (held : List Counter) (drifts : List CounterDrift)
    (scope : Counter → Prop) : Prop where
  found : ∀ c, scope c → db.Counts c → Found db drifts c
  locked : ∀ d ∈ drifts, d.rowMissing = false → d.counter ∈ held

theorem Compared.commit {db db' : Db} {held : List Counter} {drifts : List CounterDrift}
    {scope : Counter → Prop} {t : DocumentTransaction} (compared : Compared db held drifts scope)
    (matching : t.Matches db) (idle : t.changes = []) (apart : ∀ m ∈ t.moves, m.counter ∉ held)
    (h : t.commit db = some db') : Compared db' held drifts scope := by
  refine ⟨fun c inside counts => ?_, compared.locked⟩
  have found := compared.found c inside ((DocumentTransaction.commit_counts h c).mp counts)
  exact found.commit matching idle apart compared.locked h

theorem Compared.held_mono {db : Db} {held more : List Counter} {drifts : List CounterDrift}
    {scope : Counter → Prop} (compared : Compared db held drifts scope) (grows : held ⊆ more) :
    Compared db more drifts scope :=
  ⟨compared.found, fun d hd row => grows (compared.locked d hd row)⟩

def Counter.isPersonal : Counter → Bool
  | .personal _ => true
  | .tenant _ => false

theorem compared_personal (db : Db) :
    Compared db (db.storedPersonal.map fun user => Counter.personal user.1)
      (personalDrifts db.actualPersonal db.storedPersonal) (·.isPersonal) := by
  refine ⟨fun c personal _ => ?_, fun d hd row => ?_⟩
  · cases c with
    | personal userId => exact found_personalDrifts db userId
    | tenant id => cases personal
  · obtain ⟨userId, -, rfl⟩ := mem_personalDrifts.mp hd
    obtain ⟨q, found⟩ := Option.isSome_iff_exists.mp (Option.isNone_eq_false_iff.mp row)
    obtain ⟨hq, rfl⟩ := Table.find?_eq_some.mp found
    rw [Db.storedPersonal, List.map_map]
    exact List.mem_map.mpr ⟨q, hq, rfl⟩

theorem Compared.append_tenants {db : Db} {held : List Counter} {drifts : List CounterDrift}
    (compared : Compared db held drifts (·.isPersonal))
    (personal : ∀ d ∈ drifts, d.counter.isPersonal = true) :
    Compared db (held ++ db.storedTenants.map fun tenant => Counter.tenant tenant.1)
      (drifts ++ tenantDrifts db.actualTenants db.storedTenants) fun _ => True := by
  refine ⟨fun c _ counts => ?_, fun d hd row => ?_⟩
  · cases c with
    | personal userId =>
      refine (compared.found _ rfl counts).append_left fun d hd same => ?_
      obtain ⟨-, tenant, -, counter⟩ := tenantDrifts_counter hd
      cases counter.symm.trans same
    | tenant id =>
      refine (found_tenantDrifts counts).append_right fun d hd same => ?_
      have here := personal d hd
      rw [same] at here
      cases here
  · obtain mem | mem := List.mem_append.mp hd
    · exact List.mem_append_left _ (compared.locked d mem row)
    · obtain ⟨-, tenant, stored, counter⟩ := tenantDrifts_counter mem
      rw [counter]
      exact List.mem_append_right _ (List.mem_map.mpr ⟨tenant, stored, rfl⟩)

namespace Reconciliation

variable {apply : Bool} {now : Time} {r s : Reconciliation}

def PhaseSound (apply : Bool) (r : Reconciliation) : Prop :=
  match r.phase with
  | .waiting | .locked | .failed => True
  | .summedPersonal actual => actual = r.accounts.db.actualPersonal
  | .readPersonal drifts =>
    Compared r.accounts.db r.held drifts (·.isPersonal) ∧
      ∀ d ∈ drifts, d.counter.isPersonal = true
  | .summedTenants drifts actual =>
    (Compared r.accounts.db r.held drifts (·.isPersonal) ∧
      ∀ d ∈ drifts, d.counter.isPersonal = true) ∧ actual = r.accounts.db.actualTenants
  | .correcting drifts _ => Compared r.accounts.db r.held drifts fun _ => True
  | .done _ =>
    apply = true → ∀ c, r.accounts.db.Counts c → r.accounts.db.usage c = r.accounts.db.recorded c

structure Keeps (apply : Bool) (r : Reconciliation) : Prop where
  idle : r.phase.holdsLock = true → ∀ t ∈ r.transactions, t.changes = []
  apart : ∀ t ∈ r.transactions, ∀ m ∈ t.moves, m.counter ∉ r.held
  phase : r.PhaseSound apply

theorem keeps_initial (a : Accounts) : (initial a).Keeps apply :=
  ⟨fun _ _ mem => absurd mem List.not_mem_nil, fun _ mem => absurd mem List.not_mem_nil, trivial⟩

theorem apart_of_moved {counters : List Counter} (free : ¬r.moved counters = true) :
    ∀ t ∈ r.transactions, ∀ m ∈ t.moves, m.counter ∉ counters := by
  intro t ht m hm mem
  refine free (List.any_eq_true.mpr ⟨t, ht, List.any_eq_true.mpr ⟨m.counter, mem, ?_⟩⟩)
  exact List.any_eq_true.mpr ⟨m, hm, decide_eq_true rfl⟩

/-! ## The reconciliation's own steps -/

theorem Keeps.reconcile (kept : r.Keeps apply) (h : r.reconcile apply now = some s) :
    s.Keeps apply := by
  obtain ⟨accounts, transactions, phase, held⟩ := r
  obtain ⟨idle, apart, sound⟩ := kept
  cases phase with
  | waiting =>
    obtain ⟨free, same⟩ := Option.ite_none_left_eq_some.mp h
    cases same
    refine ⟨fun _ t ht => ?_, apart, trivial⟩
    refine Classical.byContradiction fun written => free ?_
    exact List.any_eq_true.mpr ⟨t, ht, by simpa using written⟩
  | locked =>
    cases h
    exact ⟨idle, apart, rfl⟩
  | summedPersonal actual =>
    obtain ⟨free, same⟩ := Option.ite_none_left_eq_some.mp h
    cases same
    refine ⟨idle, apart_of_moved free, ?_⟩
    change actual = _ at sound
    rw [sound]
    refine ⟨compared_personal accounts.db, fun d hd => ?_⟩
    obtain ⟨userId, counter⟩ := personalDrifts_counter hd
    rw [counter]
    rfl
  | readPersonal drifts =>
    cases h
    exact ⟨idle, apart, sound, rfl⟩
  | summedTenants drifts actual =>
    obtain ⟨free, same⟩ := Option.ite_none_left_eq_some.mp h
    cases same
    obtain ⟨⟨compared, personal⟩, sums⟩ := sound
    change actual = _ at sums
    rw [sums]
    refine ⟨idle, fun t ht m hm mem => ?_, compared.append_tenants personal⟩
    obtain mem | mem := List.mem_append.mp mem
    · exact apart t ht m hm mem
    · exact apart_of_moved free t ht m hm mem
  | correcting drifts left =>
    change Compared _ _ _ _ at sound
    cases left with
    | cons drift left =>
      obtain ⟨free, same⟩ := Option.ite_none_left_eq_some.mp h
      cases same
      refine ⟨idle, fun t ht m hm mem => ?_, sound.held_mono (List.subset_cons_self _ _)⟩
      obtain here | mem := List.mem_cons.mp mem
      · exact apart_of_moved free t ht m hm (List.mem_singleton.mpr here)
      · exact apart t ht m hm mem
    | nil =>
      cases h
      refine ⟨nofun, fun _ _ _ _ => List.not_mem_nil, fun applies c counts => ?_⟩
      subst applies
      exact (correctAll_repaired (fun c => sound.found c trivial) now).exact counts
  | done => cases h
  | failed => cases h

/-- Nothing of the reconciliation is committed but the corrections of an applying run. -/
theorem Keeps.reconcile_accounts (kept : r.Keeps apply) (h : r.reconcile apply now = some s) :
    s.accounts = r.accounts ∨ apply = true ∧ Repaired r.accounts s.accounts now := by
  obtain ⟨accounts, transactions, phase, held⟩ := r
  cases phase with
  | waiting =>
    obtain ⟨-, same⟩ := Option.ite_none_left_eq_some.mp h
    cases same
    exact .inl rfl
  | locked | readPersonal =>
    cases h
    exact .inl rfl
  | summedPersonal =>
    obtain ⟨-, same⟩ := Option.ite_none_left_eq_some.mp h
    cases same
    exact .inl rfl
  | summedTenants =>
    obtain ⟨-, same⟩ := Option.ite_none_left_eq_some.mp h
    cases same
    exact .inl rfl
  | correcting drifts left =>
    cases left with
    | cons =>
      obtain ⟨-, same⟩ := Option.ite_none_left_eq_some.mp h
      cases same
      exact .inl rfl
    | nil =>
      have sound : Compared _ _ _ _ := kept.phase
      cases h
      cases apply with
      | false => exact .inl rfl
      | true => exact .inr ⟨rfl, correctAll_repaired (fun c => sound.found c trivial) now⟩
  | done | failed => cases h

/-! ## Steps of the transactions -/

theorem Keeps.commit (kept : r.Keeps apply) {n : Nat} {t : DocumentTransaction} {b : Accounts}
    (open_one : r.transactions[n]? = some t) (matching : t.Matches r.accounts.db)
    (committed : r.accounts.commit t = some b) :
    Keeps apply { r with accounts := b, transactions := r.transactions.eraseIdx n } := by
  obtain ⟨idle, apart, sound⟩ := kept
  obtain ⟨db, h, rfl⟩ := Option.map_eq_some_iff.mp committed
  have mem := List.mem_of_getElem? open_one
  have rest {x : DocumentTransaction} (hx : x ∈ r.transactions.eraseIdx n) : x ∈ r.transactions :=
    (List.eraseIdx_sublist r.transactions n).subset hx
  refine ⟨fun held x hx => idle held x (rest hx), fun x hx => apart x (rest hx), ?_⟩
  unfold PhaseSound at sound ⊢
  have documents (written : t.changes = []) : db.documents = r.accounts.db.documents := by
    rw [DocumentTransaction.commit, DocumentTransaction.writeDocuments, written] at h
    exact (moves_frame h).documents
  cases phase : r.phase with
  | waiting | locked | failed => trivial
  | summedPersonal actual =>
    rw [phase] at sound idle
    change actual = _
    rw [Db.actualPersonal, documents (idle rfl t mem)]
    exact sound
  | readPersonal drifts =>
    rw [phase] at sound idle
    exact ⟨sound.1.commit matching (idle rfl t mem) (apart t mem) h, sound.2⟩
  | summedTenants drifts actual =>
    rw [phase] at sound idle
    obtain ⟨⟨compared, personal⟩, sums⟩ := sound
    refine ⟨⟨compared.commit matching (idle rfl t mem) (apart t mem) h, personal⟩, ?_⟩
    rw [Db.actualTenants, documents (idle rfl t mem)]
    exact sums
  | correcting drifts left =>
    rw [phase] at sound idle
    exact sound.commit matching (idle rfl t mem) (apart t mem) h
  | done drifts =>
    rw [phase] at sound
    intro applies c counts
    have before := sound applies c ((DocumentTransaction.commit_counts h c).mp counts)
    exact DocumentTransaction.commit_exact matching h before

theorem Keeps.step (kept : r.Keeps apply) {x : ReconciliationStep} (matching : MatchingCommits r x)
    (h : r.step apply now x = some s) : s.Keeps apply := by
  cases x with
  | start now =>
    cases h
    refine ⟨fun held t ht => ?_, fun t ht => ?_, kept.phase⟩
    · obtain old | new := List.mem_append.mp ht
      · exact kept.idle held t old
      · rw [List.mem_singleton.mp new]
    · obtain old | new := List.mem_append.mp ht
      · exact kept.apart t old
      · rw [List.mem_singleton.mp new]
        exact fun m hm => absurd hm List.not_mem_nil
  | write n change =>
    obtain ⟨t, ht, h⟩ := Option.bind_eq_some_iff.mp h
    obtain ⟨free, same⟩ := Option.ite_none_left_eq_some.mp h
    cases same
    have unlocked : r.phase.holdsLock = false := by
      rw [Bool.or_eq_true, not_or] at free
      exact Bool.eq_false_iff.mpr free.1
    refine ⟨fun held => ?_, fun x hx => ?_, kept.phase⟩
    · cases unlocked.symm.trans held
    · obtain old | rfl := List.mem_or_eq_of_mem_set hx
      · exact kept.apart x old
      · exact kept.apart t (List.mem_of_getElem? ht)
  | move n m =>
    obtain ⟨t, ht, h⟩ := Option.bind_eq_some_iff.mp h
    obtain ⟨free, same⟩ := Option.ite_none_left_eq_some.mp h
    cases same
    have mem := List.mem_of_getElem? ht
    refine ⟨fun held x hx => ?_, fun x hx => ?_, kept.phase⟩
    · obtain old | rfl := List.mem_or_eq_of_mem_set hx
      · exact kept.idle held x old
      · exact kept.idle held t mem
    · obtain old | rfl := List.mem_or_eq_of_mem_set hx
      · exact kept.apart x old
      · intro y hy
        obtain old | new := List.mem_append.mp hy
        · exact kept.apart t mem y old
        · rw [List.mem_singleton.mp new]
          intro held
          exact free (by simp [held])
  | commit n =>
    obtain ⟨t, ht, h⟩ := Option.bind_eq_some_iff.mp h
    obtain ⟨b, committed, same⟩ := Option.bind_eq_some_iff.mp h
    cases same
    exact kept.commit ht (matching t ht) committed
  | rollback n =>
    cases h
    have rest {x : DocumentTransaction} (hx : x ∈ r.transactions.eraseIdx n) : x ∈ r.transactions :=
      (List.eraseIdx_sublist r.transactions n).subset hx
    exact ⟨fun held x hx => kept.idle held x (rest hx), fun x hx => kept.apart x (rest hx),
      kept.phase⟩
  | reconcile => exact kept.reconcile h
  | giveUp =>
    have failed : s = { r with held := [], phase := .failed } := by
      simp only [Reconciliation.step] at h
      split at h
      · cases h
      · cases h
      · exact (Option.some.inj h).symm
    rw [failed]
    exact ⟨fun held => (by cases held), fun _ _ _ _ => List.not_mem_nil, trivial⟩

/-! ## A run without other transactions -/

theorem correct_alone {a : Accounts} {drifts left : List CounterDrift} {held : List Counter} :
    ∃ held', Reaches (step apply now) MatchingCommits ⟨a, [], .correcting drifts left, held⟩
      ⟨a, [], .correcting drifts [], held'⟩ := by
  induction left generalizing held with
  | nil => exact ⟨held, .refl⟩
  | cons drift left ih =>
    obtain ⟨held', rest⟩ := @ih (drift.counter :: held)
    exact ⟨held', .head ⟨.reconcile, trivial, rfl⟩ rest⟩

/-- The statements one after the other are the run of the script. -/
theorem reconcile_alone (apply : Bool) (now : Time) (a : Accounts) :
    Reaches (step apply now) MatchingCommits (initial a)
      ⟨(reconcileStorageCounters a now apply).1, [],
        .done (reconcileStorageCounters a now apply).2, []⟩ := by
  have next {r s : Reconciliation} (h : r.reconcile apply now = some s) :
      Next (step apply now) MatchingCommits r s := ⟨.reconcile, trivial, h⟩
  refine .head (next rfl) <| .head (next rfl) <| .head (next rfl) <| .head (next rfl) <|
    .head (next rfl) ?_
  obtain ⟨held, corrected⟩ := correct_alone
  exact corrected.trans (.single (next rfl))

end Reconciliation

/-- Whatever the counters were and in any interleaving: once an applying reconciliation has
committed, each counter is the sum of its documents, and another run finds nothing to correct. It
commits nothing but the corrections, and a dry run nothing at all. -/
theorem reconciliation_repairs_drift {apply : Bool} {now : Time} {a : Accounts} {r : Reconciliation}
    (run : Reaches (Reconciliation.step apply now) MatchingCommits (.initial a) r) :
    (∀ drifts, apply = true → r.phase = .done drifts →
      (∀ c, r.accounts.db.Counts c → r.accounts.db.usage c = r.accounts.db.recorded c) ∧
      ∀ later again, reconcileStorageCounters r.accounts later again = (r.accounts, [])) ∧
    ∀ x s, x = .reconcile ∨ x = .giveUp → r.step apply now x = some s →
      s.accounts = r.accounts ∨ apply = true ∧ Repaired r.accounts s.accounts now := by
  have kept : r.Keeps apply :=
    run.invariant (fun _ _ _ kept matching h => Reconciliation.Keeps.step kept matching h)
      (Reconciliation.keeps_initial a)
  refine ⟨fun drifts applies done => ?_, fun x s own h => ?_⟩
  · have exact : ∀ c, r.accounts.db.Counts c →
        r.accounts.db.usage c = r.accounts.db.recorded c := by
      have sound := kept.phase
      rw [Reconciliation.PhaseSound, done] at sound
      exact sound applies
    exact ⟨exact, fun later again => reconcile_of_exact exact later again⟩
  · obtain rfl | rfl := own
    · exact kept.reconcile_accounts h
    · simp only [Reconciliation.step] at h
      split at h
      · cases h
      · cases h
      · cases h
        exact .inl rfl

/-- Ana's counter and that of Acme are wrong, and Cyd has none. -/
def driftedAccounts : Accounts where
  db :=
    { Db.empty with
      documents :=
        ⟨[noteRow (uuid "a") "ana" 10 none, noteRow (uuid "b") "bob" 5 (some (uuid "acme")),
          noteRow (uuid "c") "cyd" 4 none], by decide⟩
      users := ⟨[(freeQuotaValues "ana").setCounters (3, 7), freeQuotaValues "bob"], by decide⟩
      tenants := ⟨[acme.setCounters (9, 9)], by decide⟩ }
  updatedAt := fun _ => 0

/-- A transaction that has moved Ana's counter is rolled back, and one that has to wait adds a
document after the reconciliation. -/
def reconciliationUnderLoad : List ReconciliationStep :=
  [.start 1, .move 0 ⟨"ana", none, (2, 1)⟩, .reconcile, .reconcile, .rollback 0, .start 2,
    .reconcile, .reconcile, .reconcile, .reconcile, .reconcile, .reconcile, .reconcile,
    .move 0 ⟨"ana", none, (2, 1)⟩, .write 0 (.insert (noteRow (uuid "d") "ana" 2 none)), .commit 0]

theorem reconciliation_repairs_drift_under_load : ∃ r : Reconciliation, r.transactions = [] ∧
    r.accounts.db.usage (.personal "ana") = (12, 2) ∧
    r.accounts.db.usage (.personal "cyd") = (4, 1) ∧
    r.accounts.db.usage (.tenant (uuid "acme")) = (5, 1) ∧
    ∀ c, r.accounts.db.Counts c → r.accounts.db.usage c = r.accounts.db.recorded c := by
  obtain ⟨r, run, none_open, done, ana, cyd, tenant⟩ := exists_reaches_of_runAll
    (Reconciliation.step true 9) MatchingCommits (.initial driftedAccounts) reconciliationUnderLoad
    (fun r => r.transactions = [] ∧
      r.phase = .done (reconcileStorageCounters driftedAccounts 9 true).2 ∧
      r.accounts.db.usage (.personal "ana") = (12, 2) ∧
      r.accounts.db.usage (.personal "cyd") = (4, 1) ∧
      r.accounts.db.usage (.tenant (uuid "acme")) = (5, 1)) (by decide)
  exact ⟨r, none_open, ana, cyd, tenant, ((reconciliation_repairs_drift run).1 _ rfl done).1⟩

/-- The time of the last change of an organization is written with its counters, and a reconciliation
that gives up in a deadlock leaves the counters as they are. -/
theorem reconciliation_stamps_and_gives_up :
    (∃ r, Reaches (Reconciliation.step true 9) MatchingCommits (.initial driftedAccounts) r ∧
      r.transactions = [] ∧ r.phase = .done (reconcileStorageCounters driftedAccounts 9 true).2 ∧
      r.accounts.updatedAt (uuid "acme") ≠ driftedAccounts.updatedAt (uuid "acme")) ∧
    ∃ r, Reaches (Reconciliation.step true 9) MatchingCommits (.initial driftedAccounts) r ∧
      r.transactions = [] ∧ r.phase = .failed ∧
      r.accounts.db.usage (.personal "ana") ≠ r.accounts.db.recorded (.personal "ana") := by
  constructor
  · refine ⟨_, Reconciliation.reconcile_alone true 9 driftedAccounts, rfl, rfl, ?_⟩
    decide
  · exact exists_reaches_of_runAll
      (Reconciliation.step true 9) MatchingCommits (.initial driftedAccounts)
      [.start 1, .move 0 ⟨"ana", none, (2, 1)⟩, .reconcile, .reconcile, .giveUp,
        .write 0 (.insert (noteRow (uuid "d") "ana" 2 none)), .commit 0]
      (fun r => r.transactions = [] ∧ r.phase = .failed ∧
        r.accounts.db.usage (.personal "ana") ≠ r.accounts.db.recorded (.personal "ana"))
      (by decide)

end GigaPdf
