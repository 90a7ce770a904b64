import Mathlib.Data.List.Basic
import Mathlib.Data.List.Count
import Mathlib.Logic.Function.Basic
import GigaPdf.Lib.Runs

/-!
# Metered API calls

A request with an API key is checked against the quota of its user, and counted when it is admitted.
The check, the reset of an ended month and the count are transactions of their own, and each writes
what follows from what it has read.
-/

namespace GigaPdf

open Runs

/-! ## Months -/

/-- A moment of a calendar month; `month` is 0 for January. -/
structure Moment where
  year : Nat
  month : Fin 12
  within : Nat
deriving DecidableEq

namespace Moment

def monthIndex (t : Moment) : Nat := 12 * t.year + t.month

/-- `t` is not after `u`. -/
def upTo (t u : Moment) : Prop :=
  t.monthIndex < u.monthIndex ∨ t.monthIndex = u.monthIndex ∧ t.within ≤ u.within

instance (t u : Moment) : Decidable (t.upTo u) := by
  unfold upTo
  infer_instance

/-- The first of the next month. -/
def getNextResetDate (now : Moment) : Moment :=
  if now.month = 11 then ⟨now.year + 1, 0, 0⟩ else ⟨now.year, now.month + 1, 0⟩

end Moment

/-! ## The requests -/

structure ApiQuota where
  used : Nat
  limit : Int
  resetAt : Moment
deriving DecidableEq

def unlimited : Int := -1

def hasCapacity (used : Nat) (limit : Int) (additional : Nat) : Bool :=
  limit = unlimited || used + additional ≤ limit

/-- The free plan has 1000 calls a month. -/
def freeApiQuota (now : Moment) : ApiQuota := ⟨0, 1000, now.getNextResetDate⟩

/-- Where a request stands. The reset date is computed after the decision to reset, and written
later. -/
inductive MeterPhase
  | checking
  | creating
  | checked (row : ApiQuota)
  | resetting
  | clearing (next : Moment)
  | rechecking
  | refused
  | failed
  | admitted
  | counting (row : ApiQuota)
  | adding (row : ApiQuota)
  | renewing (row : ApiQuota)
  | replacing (row : ApiQuota) (next : Moment)
  | counted
deriving DecidableEq

/-- The request has been admitted and is still to be counted. -/
def MeterPhase.toCount : MeterPhase → Bool
  | .admitted | .counting _ | .adding _ | .renewing _ | .replacing _ _ => true
  | .checking | .creating | .checked _ | .resetting | .clearing _ | .rechecking | .refused
  | .failed | .counted => false

/-- One user's quota, and the requests in the order of their arrival. The last three fields record
the number of calls admitted since the last reset, the one that resets included, and for each period,
named by its reset date, the numbers of those admitted and those counted in it. -/
structure Metering where
  now : Moment
  quota : Option ApiQuota
  calls : List MeterPhase
  sinceReset : Nat
  admittedIn : Moment → Nat
  countedIn : Moment → Nat

inductive MeterStep
  | tick (now : Moment)
  | arrive
  | read (call : Nat)
  | decide (call : Nat)
  | write (call : Nat)

namespace Metering

def setCall (m : Metering) (n : Nat) (phase : MeterPhase) : Metering :=
  { m with calls := m.calls.set n phase }

/-- The end of `check_api_quota`, with the row that it goes by. -/
def check (m : Metering) (n : Nat) (q row : ApiQuota) : Metering :=
  if hasCapacity row.used row.limit 1 then
    { m.setCall n .admitted with
      sinceReset := m.sinceReset + 1
      admittedIn := Function.update m.admittedIn q.resetAt (m.admittedIn q.resetAt + 1) }
  else m.setCall n .refused

/-- The commit of `_reset_api_quota`. -/
def resetApiQuota (m : Metering) (n : Nat) (q : ApiQuota) (next : Moment) : Metering :=
  { m.setCall n .rechecking with
    quota := some { q with used := 0, resetAt := next }
    sinceReset := 0 }

def countIn (m : Metering) (n : Nat) (q : ApiQuota) : Metering :=
  { m.setCall n .counted with
    quota := some q
    countedIn := Function.update m.countedIn q.resetAt (m.countedIn q.resetAt + 1) }

/-- The commit of `increment_api_calls` in the period of the row that it has read. -/
def addCall (m : Metering) (n : Nat) (q row : ApiQuota) : Metering :=
  m.countIn n { q with used := row.used + 1 }

/-- The commit of `increment_api_calls` after the end of the period. An attribute that is set to the
value that was loaded is not written. -/
def replaceCalls (m : Metering) (n : Nat) (q row : ApiQuota) (next : Moment) : Metering :=
  { m.countIn n { q with used := if row.used = 1 then q.used else 1, resetAt := next } with
    sinceReset := 1 }

def step (m : Metering) : MeterStep → Option Metering
  | .tick now => if m.now.upTo now then some { m with now } else none
  | .arrive => some { m with calls := m.calls ++ [.checking] }
  | .read n =>
    match m.calls[n]?, m.quota with
    | some .checking, none => some (m.setCall n .creating)
    | some .checking, some q => some (m.setCall n (.checked q))
    | some .rechecking, some q => some (m.check n q q)
    | some .admitted, some q => some (m.setCall n (.counting q))
    | _, _ => none
  | .decide n =>
    match m.calls[n]?, m.quota with
    | some (.checked row), some q =>
      if row.resetAt.upTo m.now then some (m.setCall n .resetting) else some (m.check n q row)
    | some .resetting, some _ => some (m.setCall n (.clearing m.now.getNextResetDate))
    | some (.counting row), some _ =>
      if row.resetAt.upTo m.now then some (m.setCall n (.renewing row))
      else some (m.setCall n (.adding row))
    | some (.renewing row), some _ =>
      some (m.setCall n (.replacing row m.now.getNextResetDate))
    | _, _ => none
  | .write n =>
    match m.calls[n]?, m.quota with
    | some .creating, none =>
      some { m.setCall n .checking with quota := some (freeApiQuota m.now) }
    -- The user id is the primary key.
    | some .creating, some _ => some (m.setCall n .failed)
    | some (.clearing next), some q => some (m.resetApiQuota n q next)
    | some (.adding row), some q => some (m.addCall n q row)
    | some (.replacing row next), some q => some (m.replaceCalls n q row next)
    | _, _ => none

/-- The number of calls that are admitted and still to be counted. -/
def inFlight (m : Metering) : Nat := m.calls.countP (·.toCount)

def usedIn : Option ApiQuota → Moment → Nat
  | some q, p => if q.resetAt = p then q.used else 0
  | none, _ => 0

/-- Any row, whose calls are those of its period. -/
def start (now : Moment) (quota : Option ApiQuota) : Metering where
  now := now
  quota := quota
  calls := []
  sinceReset := (quota.map (·.used)).getD 0
  admittedIn := usedIn quota
  countedIn := usedIn quota

/-- Every admitted call is counted, none of the period is gone, and no period has more calls than the
limit. -/
structure Metered (m : Metering) : Prop where
  counts : ∀ q, m.quota = some q → q.used + m.inFlight = m.sinceReset
  kept : ∀ q, m.quota = some q →
    q.used = m.countedIn q.resetAt ∧ m.admittedIn q.resetAt ≤ m.sinceReset
  limited : ∀ q, m.quota = some q → q.limit ≠ unlimited →
    m.sinceReset ≤ q.limit ∧ ∀ p, m.admittedIn p ≤ q.limit

/-- Once no call is left to be counted, the counter is the number of calls since the last reset. -/
theorem Metered.used_eq {m : Metering} (metered : Metered m) {q : ApiQuota}
    (row : m.quota = some q) (done : ∀ phase ∈ m.calls, phase.toCount = false) :
    q.used = m.sinceReset := by
  have idle : m.inFlight = 0 := by
    rw [inFlight, List.countP_eq_zero]
    intro phase mem h
    rw [done phase mem] at h
    cases h
  rw [← metered.counts q row, idle, Nat.add_zero]

/-- There is room for one more call beside those that are counted and those that will be. -/
def Room (m : Metering) (q : ApiQuota) : Prop :=
  q.limit = unlimited ∨ ((q.used + m.inFlight + 1 : Nat) : Int) ≤ q.limit

/-- An admission leaves room for the calls in flight; a reset finds none of them and opens a new
period; a count adds to the number that it has read. -/
def SoundAt (m : Metering) (q : ApiQuota) : MeterPhase → Prop
  | .checked row =>
    row.resetAt.upTo m.now ∨ hasCapacity row.used row.limit 1 = false ∨ m.Room q
  | .rechecking => hasCapacity q.used q.limit 1 = false ∨ m.Room q
  | .clearing next => m.inFlight = 0 ∧ m.admittedIn next = 0 ∧ m.countedIn next = 0
  | .adding row => q.used = row.used
  | .replacing row next => m.inFlight = 1 ∧ m.admittedIn next ≤ 1 ∧ m.countedIn next = 0 ∧
      (row.used = 1 → q.used = 1)
  | .checking | .creating | .resetting | .refused | .failed | .admitted | .counting _
  | .renewing _ | .counted => True

def SoundStep (m : Metering) : MeterStep → Prop
  | .tick _ | .arrive => True
  | .read n | .decide n | .write n => ∀ q ∈ m.quota, ∀ phase ∈ m.calls[n]?, m.SoundAt q phase

instance (m : Metering) (q : ApiQuota) : Decidable (m.Room q) := by
  unfold Room
  infer_instance

instance (m : Metering) (q : ApiQuota) (phase : MeterPhase) : Decidable (m.SoundAt q phase) := by
  cases phase <;> unfold SoundAt <;> infer_instance

instance (m : Metering) : ∀ a, Decidable (m.SoundStep a)
  | .tick _ | .arrive => .isTrue trivial
  | .read n | .decide n | .write n =>
    inferInstanceAs (Decidable (∀ q ∈ m.quota, ∀ phase ∈ m.calls[n]?, m.SoundAt q phase))

/-! ## What a turn does -/

/-- What a request does in one step, by where it stands. -/
inductive Turn (m : Metering) (n : Nat) : MeterPhase → Metering → Prop
  | move {phase : MeterPhase} (after : MeterPhase) (same : phase.toCount = after.toCount)
      (absent : m.quota = none → after = .creating) (free : ∀ q, m.SoundAt q phase) :
      Turn m n phase (m.setCall n after)
  | create (absent : m.quota = none) : Turn m n .creating
      { m.setCall n .checking with quota := some (freeApiQuota m.now) }
  | due {q : ApiQuota} (row : ApiQuota) (due : row.resetAt.upTo m.now) (there : m.quota = some q) :
      Turn m n (.checked row) (m.setCall n .resetting)
  | check {q : ApiQuota} (row : ApiQuota) (early : ¬row.resetAt.upTo m.now) (there : m.quota = some q) :
      Turn m n (.checked row) (m.check n q row)
  | recheck (q : ApiQuota) (there : m.quota = some q) : Turn m n .rechecking (m.check n q q)
  | reset {q : ApiQuota} (next : Moment) (there : m.quota = some q) :
      Turn m n (.clearing next) (m.resetApiQuota n q next)
  | add {q : ApiQuota} (row : ApiQuota) (there : m.quota = some q) :
      Turn m n (.adding row) (m.addCall n q row)
  | replace {q : ApiQuota} (row : ApiQuota) (next : Moment) (there : m.quota = some q) :
      Turn m n (.replacing row next) (m.replaceCalls n q row next)

variable {m m' : Metering}

theorem step_cases {a : MeterStep} (h : m.step a = some m') :
    (∃ now, a = .tick now ∧ m' = { m with now }) ∨
    (a = .arrive ∧ m' = { m with calls := m.calls ++ [.checking] }) ∨
    ∃ n phase, (a = .read n ∨ a = .decide n ∨ a = .write n) ∧ m.calls[n]? = some phase ∧
      Turn m n phase m' := by
  cases a with
  | tick now =>
    simp only [step, Option.ite_none_right_eq_some, Option.some.injEq] at h
    exact Or.inl ⟨now, rfl, h.2.symm⟩
  | arrive =>
    cases h
    exact Or.inr (Or.inl ⟨rfl, rfl⟩)
  | read n =>
    refine Or.inr (Or.inr ⟨n, ?_⟩)
    simp only [step] at h
    split at h
    · rename_i here absent
      cases h
      exact ⟨_, Or.inl rfl, here, .move _ rfl (fun _ => rfl) fun _ => trivial⟩
    · rename_i q here there
      cases h
      exact ⟨_, Or.inl rfl, here, .move _ rfl (fun absent => by rw [there] at absent; cases absent)
        fun _ => trivial⟩
    · rename_i q here there
      cases h
      exact ⟨_, Or.inl rfl, here, .recheck _ there⟩
    · rename_i q here there
      cases h
      exact ⟨_, Or.inl rfl, here, .move _ rfl (fun absent => by rw [there] at absent; cases absent)
        fun _ => trivial⟩
    · cases h
  | decide n =>
    refine Or.inr (Or.inr ⟨n, ?_⟩)
    simp only [step] at h
    split at h
    · rename_i row q here there
      split at h
      · rename_i due
        cases h
        exact ⟨_, Or.inr (Or.inl rfl), here, .due _ due there⟩
      · rename_i early
        cases h
        exact ⟨_, Or.inr (Or.inl rfl), here, .check _ early there⟩
    · rename_i q here there
      cases h
      exact ⟨_, Or.inr (Or.inl rfl), here,
        .move _ rfl (fun absent => by rw [there] at absent; cases absent) fun _ => trivial⟩
    · rename_i row q here there
      split at h <;> cases h <;> exact ⟨_, Or.inr (Or.inl rfl), here,
        .move _ rfl (fun absent => by rw [there] at absent; cases absent) fun _ => trivial⟩
    · rename_i row q here there
      cases h
      exact ⟨_, Or.inr (Or.inl rfl), here,
        .move _ rfl (fun absent => by rw [there] at absent; cases absent) fun _ => trivial⟩
    · cases h
  | write n =>
    refine Or.inr (Or.inr ⟨n, ?_⟩)
    simp only [step] at h
    split at h
    · rename_i here absent
      cases h
      exact ⟨_, Or.inr (Or.inr rfl), here, .create absent⟩
    · rename_i q here there
      cases h
      exact ⟨_, Or.inr (Or.inr rfl), here,
        .move _ rfl (fun absent => by rw [there] at absent; cases absent) fun _ => trivial⟩
    · rename_i next q here there
      cases h
      exact ⟨_, Or.inr (Or.inr rfl), here, .reset next there⟩
    · rename_i row q here there
      cases h
      exact ⟨_, Or.inr (Or.inr rfl), here, .add row there⟩
    · rename_i row next q here there
      cases h
      exact ⟨_, Or.inr (Or.inr rfl), here, .replace row next there⟩
    · cases h

theorem inFlight_setCall {n : Nat} {phase : MeterPhase} (here : m.calls[n]? = some phase)
    (after : MeterPhase) :
    (m.setCall n after).inFlight + phase.toCount.toNat = m.inFlight + after.toCount.toNat := by
  obtain ⟨bound, found⟩ := List.getElem?_eq_some_iff.mp here
  have positive : phase.toCount = true → 0 < m.calls.countP (·.toCount) := by
    intro counts
    exact List.countP_pos_iff.mpr ⟨phase, List.mem_of_getElem? here, counts⟩
  simp only [inFlight, setCall, List.countP_set bound, found]
  cases before : phase.toCount with
  | false => cases after.toCount <;> simp
  | true =>
    have some_counts := positive before
    cases after.toCount <;> simp <;> omega

theorem check_quota {n : Nat} {q row : ApiQuota} : (m.check n q row).quota = m.quota := by
  rw [check]
  split <;> rfl

/-- Before the row is there, nothing has been admitted. -/
structure Keeps (m : Metering) : Prop where
  metered : Metered m
  unread : m.quota = none → (∀ phase ∈ m.calls, phase = .checking ∨ phase = .creating) ∧
    m.sinceReset = 0 ∧ ∀ p, m.admittedIn p = 0 ∧ m.countedIn p = 0

theorem Keeps.of_some (metered : Metered m) {q : ApiQuota} (there : m.quota = some q) : Keeps m :=
  ⟨metered, fun absent => by rw [there] at absent; cases absent⟩

theorem start_keeps {now : Moment} {quota : Option ApiQuota}
    (within : ∀ q ∈ quota, q.limit ≠ unlimited → (q.used : Int) ≤ q.limit) :
    Keeps (start now quota) := by
  cases quota with
  | none =>
    have no_row : ∀ q, (start now none).quota ≠ some q := by
      intro q there
      cases there
    exact ⟨⟨fun q there => absurd there (no_row q), fun q there => absurd there (no_row q),
      fun q there => absurd there (no_row q)⟩,
      fun _ => ⟨fun phase mem => (List.not_mem_nil mem).elim, rfl, fun p => ⟨rfl, rfl⟩⟩⟩
  | some q =>
    refine .of_some ⟨?_, ?_, ?_⟩ rfl
    · rintro _ ⟨⟩
      rfl
    · rintro _ ⟨⟩
      simp [start, usedIn]
    · rintro _ ⟨⟩ finite
      have bound := within q rfl finite
      refine ⟨bound, fun p => ?_⟩
      simp only [start, usedIn]
      split <;> omega

section
variable {n : Nat} {phase : MeterPhase} (here : m.calls[n]? = some phase)
include here

theorem Keeps.move (keeps : Keeps m) {after : MeterPhase} (same : phase.toCount = after.toCount)
    (absent : m.quota = none → after = .creating) : Keeps (m.setCall n after) := by
  have flight : (m.setCall n after).inFlight = m.inFlight := by
    have moved := inFlight_setCall here after
    rw [same] at moved
    exact Nat.add_right_cancel moved
  obtain ⟨counts, kept, limited⟩ := keeps.metered
  refine ⟨⟨fun q there => ?_, kept, limited⟩, fun none_there => ?_⟩
  · rw [flight]
    exact counts q there
  · obtain ⟨phases, rest⟩ := keeps.unread none_there
    refine ⟨fun other mem => ?_, rest⟩
    obtain old | rfl := List.mem_or_eq_of_mem_set mem
    · exact phases other old
    · exact Or.inr (absent none_there)

theorem metered_check_iff {q : ApiQuota} (row : ApiQuota) (metered : Metered m) (there : m.quota = some q)
    (idle : phase.toCount = false) :
    Metered (m.check n q row) ↔ hasCapacity row.used row.limit 1 = false ∨ m.Room q := by
  obtain ⟨counts, kept, limited⟩ := metered
  have total := counts q there
  rw [check]
  split
  · rename_i allowed
    have flight := inFlight_setCall here .admitted
    rw [idle] at flight
    simp only [MeterPhase.toCount, Bool.toNat_false, Bool.toNat_true, Nat.add_zero] at flight
    rw [or_iff_right (by simp [allowed])]
    constructor
    · intro after
      by_cases finite : q.limit = unlimited
      · exact Or.inl finite
      · have bound := (after.limited q there finite).1
        rw [← total] at bound
        exact Or.inr bound
    · intro room
      have flight_eq : (Metering.inFlight { m.setCall n .admitted with
          sinceReset := m.sinceReset + 1
          admittedIn :=
            Function.update m.admittedIn q.resetAt (m.admittedIn q.resetAt + 1) }) =
          m.inFlight + 1 := flight
      refine ⟨fun r hr => ?_, fun r hr => ?_, fun r hr finite => ?_⟩
      · cases there.symm.trans hr
        rw [flight_eq]
        simp only
        omega
      · cases there.symm.trans hr
        obtain ⟨same, bound⟩ := kept q there
        refine ⟨same, ?_⟩
        simp only [Function.update_self]
        omega
      · cases there.symm.trans hr
        obtain ⟨-, periods⟩ := limited q there finite
        have bound := room.resolve_left finite
        have here_bound := (kept q there).2
        refine ⟨by simp only; omega, fun p => ?_⟩
        by_cases same : p = q.resetAt
        · subst same
          simp only [Function.update_self]
          omega
        · simp only [Function.update_of_ne same]
          exact periods p
  · rename_i refused
    refine iff_of_true ?_ (Or.inl (by simpa using refused))
    have flight := inFlight_setCall here .refused
    rw [idle] at flight
    refine ⟨fun r hr => ?_, kept, limited⟩
    have same : (m.setCall n .refused).inFlight = m.inFlight := Nat.add_right_cancel flight
    rw [same]
    exact counts r hr

theorem metered_reset_iff {q : ApiQuota} (next : Moment) (metered : Metered m)
    (there : m.quota = some q) (idle : phase.toCount = false) :
    Metered (m.resetApiQuota n q next) ↔
      m.inFlight = 0 ∧ m.admittedIn next = 0 ∧ m.countedIn next = 0 := by
  obtain ⟨counts, kept, limited⟩ := metered
  have total := counts q there
  have moved := inFlight_setCall here .rechecking
  rw [idle] at moved
  have flight : (m.resetApiQuota n q next).inFlight = m.inFlight := Nat.add_right_cancel moved
  constructor
  · intro after
    have none_left := after.counts _ rfl
    obtain ⟨same, admitted⟩ := after.kept _ rfl
    rw [flight] at none_left
    simp only [resetApiQuota, setCall] at none_left same admitted
    omega
  · rintro ⟨none_left, admitted, counted⟩
    refine ⟨?_, ?_, ?_⟩
    · rintro _ ⟨⟩
      rw [flight, none_left]
      rfl
    · rintro _ ⟨⟩
      simp only [resetApiQuota, setCall]
      omega
    · rintro _ ⟨⟩ finite
      obtain ⟨bound, periods⟩ := limited q there finite
      refine ⟨?_, periods⟩
      simp only [resetApiQuota]
      omega

theorem inFlight_countIn (counts : phase.toCount = true) (q : ApiQuota) :
    (m.countIn n q).inFlight + 1 = m.inFlight := by
  have moved := inFlight_setCall here .counted
  rw [counts] at moved
  exact moved

theorem metered_add_iff {q : ApiQuota} (row : ApiQuota) (metered : Metered m) (there : m.quota = some q)
    (counts_here : phase.toCount = true) :
    Metered (m.addCall n q row) ↔ q.used = row.used := by
  obtain ⟨counts, kept, limited⟩ := metered
  have total := counts q there
  obtain ⟨same, admitted⟩ := kept q there
  have flight := inFlight_countIn here counts_here { q with used := row.used + 1 }
  constructor
  · intro after
    have counted : row.used + 1 = _ := (after.kept _ rfl).1
    simp only [addCall, countIn, Function.update_self] at counted
    omega
  · intro current
    refine ⟨?_, ?_, ?_⟩
    · rintro _ ⟨⟩
      rw [addCall]
      change row.used + 1 + _ = m.sinceReset
      omega
    · rintro _ ⟨⟩
      simp only [addCall, countIn, setCall, Function.update_self]
      omega
    · rintro _ ⟨⟩ finite
      exact limited q there finite

theorem metered_replace_iff {q : ApiQuota} (row : ApiQuota) (next : Moment) (metered : Metered m)
    (there : m.quota = some q) (counts_here : phase.toCount = true) :
    Metered (m.replaceCalls n q row next) ↔
      m.inFlight = 1 ∧ m.admittedIn next ≤ 1 ∧ m.countedIn next = 0 ∧
        (row.used = 1 → q.used = 1) := by
  obtain ⟨counts, kept, limited⟩ := metered
  have total := counts q there
  have flight : (m.replaceCalls n q row next).inFlight + 1 = m.inFlight :=
    inFlight_countIn here counts_here
      { q with used := if row.used = 1 then q.used else 1, resetAt := next }
  constructor
  · intro after
    have alone : (if row.used = 1 then q.used else 1) + (m.replaceCalls n q row next).inFlight =
        1 := after.counts _ rfl
    obtain ⟨counted, admitted⟩ := after.kept _ rfl
    simp only [replaceCalls, countIn, Function.update_self] at counted admitted
    by_cases one : row.used = 1
    · rw [if_pos one] at alone counted
      refine ⟨?_, admitted, ?_, fun _ => ?_⟩ <;> omega
    · rw [if_neg one] at alone counted
      exact ⟨by omega, admitted, by omega, fun is_one => absurd is_one one⟩
  · rintro ⟨alone, admitted, counted, loaded⟩
    have used : (if row.used = 1 then q.used else 1) = 1 := by
      split
      · rename_i one
        exact loaded one
      · rfl
    refine ⟨?_, ?_, ?_⟩
    · rintro _ ⟨⟩
      change (if row.used = 1 then q.used else 1) + (m.replaceCalls n q row next).inFlight = 1
      omega
    · rintro _ ⟨⟩
      simp only [replaceCalls, countIn, setCall, Function.update_self, used]
      omega
    · rintro _ ⟨⟩ finite
      obtain ⟨bound, periods⟩ := limited q there finite
      refine ⟨?_, periods⟩
      simp only [replaceCalls]
      omega

end

/-- What a turn keeps, and what it breaks. -/
theorem Keeps.turn (keeps : Keeps m) {n : Nat} {phase : MeterPhase}
    (here : m.calls[n]? = some phase) (turn : Turn m n phase m') :
    ((∀ q ∈ m.quota, m.SoundAt q phase) → Keeps m') ∧
      (Metered m' → ∀ q ∈ m.quota, m.SoundAt q phase) := by
  have only : ∀ {q r : ApiQuota}, m.quota = some q → r ∈ m.quota → r = q := by
    intro q r there mem
    exact Option.some.inj (mem.symm.trans there)
  cases turn with
  | move after same absent free =>
    exact ⟨fun _ => keeps.move here same absent, fun _ q _ => free q⟩
  | create absent =>
    obtain ⟨phases, nothing, empty⟩ := keeps.unread absent
    have idle : m.inFlight = 0 := by
      rw [inFlight, List.countP_eq_zero]
      intro other mem
      obtain rfl | rfl := phases other mem <;> decide
    have flight := inFlight_setCall here .checking
    rw [idle] at flight
    refine ⟨fun _ => .of_some ⟨?_, ?_, ?_⟩ rfl, fun _ q _ => trivial⟩
    · rintro _ ⟨⟩
      change 0 + (m.setCall n .checking).inFlight = m.sinceReset
      rw [nothing, Nat.zero_add]
      exact flight
    · rintro _ ⟨⟩
      obtain ⟨admitted, counted⟩ := empty (freeApiQuota m.now).resetAt
      simp only [setCall, admitted, counted, nothing]
      exact ⟨rfl, Nat.le_refl _⟩
    · rintro _ ⟨⟩ -
      refine ⟨by simp only [setCall, nothing, freeApiQuota]; omega, fun p => ?_⟩
      simp only [setCall, (empty p).1, freeApiQuota]
      omega
  | due row due there =>
    refine ⟨fun _ => keeps.move here rfl fun absent => ?_, fun _ q _ => Or.inl due⟩
    rw [there] at absent
    cases absent
  | check row early there =>
    have iff := metered_check_iff here row keeps.metered there rfl
    constructor
    · intro sound
      exact .of_some (iff.mpr ((sound _ there).resolve_left early)) (check_quota.trans there)
    · intro after q mem
      rw [only there mem]
      exact Or.inr (iff.mp after)
  | recheck q there =>
    have iff := metered_check_iff here q keeps.metered there rfl
    constructor
    · intro sound
      exact .of_some (iff.mpr (sound _ there)) (check_quota.trans there)
    · intro after r mem
      rw [only there mem]
      exact iff.mp after
  | reset next there =>
    have iff := metered_reset_iff here next keeps.metered there rfl
    exact ⟨fun sound => .of_some (iff.mpr (sound _ there)) rfl, fun after _ _ => iff.mp after⟩
  | add row there =>
    have iff := metered_add_iff here row keeps.metered there rfl
    refine ⟨fun sound => .of_some (iff.mpr (sound _ there)) rfl, fun after q mem => ?_⟩
    rw [only there mem]
    exact iff.mp after
  | replace row next there =>
    have iff := metered_replace_iff here row next keeps.metered there rfl
    refine ⟨fun sound => .of_some (iff.mpr (sound _ there)) rfl, fun after q mem => ?_⟩
    rw [only there mem]
    exact iff.mp after

theorem Keeps.step_iff (keeps : Keeps m) {a : MeterStep} (h : m.step a = some m') :
    (SoundStep m a → Keeps m') ∧ (Metered m' → SoundStep m a) := by
  obtain ⟨now, rfl, rfl⟩ | ⟨rfl, rfl⟩ | ⟨n, phase, kind, here, turn⟩ := step_cases h
  · obtain ⟨⟨counts, kept, limited⟩, unread⟩ := keeps
    exact ⟨fun _ => ⟨⟨counts, kept, limited⟩, unread⟩, fun _ => trivial⟩
  · refine ⟨fun _ => ⟨⟨fun q there => ?_, keeps.metered.kept, keeps.metered.limited⟩,
      fun absent => ?_⟩, fun _ => trivial⟩
    · have same : Metering.inFlight { m with calls := m.calls ++ [.checking] } = m.inFlight := by
        rw [inFlight, List.countP_append]
        rfl
      rw [same]
      exact keeps.metered.counts q there
    · obtain ⟨phases, rest⟩ := keeps.unread absent
      refine ⟨fun phase mem => ?_, rest⟩
      obtain old | new := List.mem_append.mp mem
      · exact phases phase old
      · exact Or.inl (List.mem_singleton.mp new)
  · have sound : SoundStep m a ↔ ∀ q ∈ m.quota, m.SoundAt q phase := by
      obtain rfl | rfl | rfl := kind <;> simp [SoundStep, here]
    rw [sound]
    exact keeps.turn here turn

end Metering

def january : Moment := ⟨2026, 0, 0⟩

def february : Moment := ⟨2026, 1, 0⟩

/-- A quota of two calls in January. -/
def twoCalls : ApiQuota := ⟨0, 2, february⟩

/-- The steps of a call that nothing disturbs, in a period that goes on. -/
def oneCall (n : Nat) : List MeterStep :=
  [.arrive, .read n, .decide n, .read n, .decide n, .write n]

end GigaPdf
