import GigaPdf.Lib.Epochs
import GigaPdf.Lib.Runs
import GigaPdf.Security.ClientIp
import Mathlib.Data.List.Perm.Basic
import Mathlib.Logic.Function.Basic

/-!
# Rate limits

`RateLimiter.is_allowed` with its counters in Redis. A call counts itself and reads the time to live
in one transaction, and gives the counter an expiry in a second command when it has none. Any number
of callers are between their commands at the same time, each may fail or stop there, and a command
whose reply is lost may have been executed.
-/

namespace GigaPdf.RateLimits

open Epochs Runs

/-! ## Counters -/

/-- How many requests a key admits in a window of some seconds. -/
structure Policy where
  limit : Nat
  window : Nat
  positive : 0 < window

/-- The window in milliseconds, the unit of the clock. -/
def Policy.span (p : Policy) : Nat := p.window * 1000

structure Counter where
  count : Nat
  expiresAt : Option Nat
deriving DecidableEq, Repr

/-- When a call was counted, and what the counter was then. -/
structure Counted where
  time : Nat
  rank : Nat
deriving DecidableEq, Repr

/-- Where a call stands. `failedOpen` is the answer behind an exception. -/
inductive Phase
  | counting
  | expiring
  | answered (isAllowed : Bool) (remaining : Nat) (resetInSeconds : Int)
  | failedOpen
  | stopped
deriving DecidableEq, Repr

structure Call (κ : Type) where
  key : κ
  phase : Phase
  counted : Option Counted
deriving DecidableEq, Repr

structure Limiter (κ : Type) where
  now : Nat
  redis : κ → Option Counter
  calls : List (Call κ)

inductive Step (κ : Type)
  | tick (now : Nat)
  | arrive (key : κ)
  | execute (call : Nat)
  | expire (call : Nat)
  | fail (call : Nat) (reached : Bool)
  | stop (call : Nat) (reached : Bool)

/-- No caller fails or stops. -/
def Step.completes {κ : Type} : Step κ → Bool
  | .tick _ | .arrive _ | .execute _ | .expire _ => true
  | .fail _ _ | .stop _ _ => false

namespace Limiter

variable {κ : Type} [DecidableEq κ]

def empty : Limiter κ := ⟨0, fun _ => none, []⟩

/-- The counter that a command finds: one past its expiry is gone. -/
def found (s : Limiter κ) (key : κ) : Option Counter :=
  (s.redis key).filter fun c => c.expiresAt.all (s.now ≤ ·)

/-- `INCR` -/
def incr (s : Limiter κ) (key : κ) : Counter :=
  match s.found key with
  | none => ⟨1, none⟩
  | some c => { c with count := c.count + 1 }

/-- `TTL` -/
def ttl (s : Limiter κ) (c : Counter) : Int :=
  match c.expiresAt with
  | none => -1
  | some at_ => ((at_ - s.now + 500) / 1000 : Nat)

def setCall (s : Limiter κ) (n : Nat) (call : Call κ) : Limiter κ :=
  { s with calls := s.calls.set n call }

def setCounter (s : Limiter κ) (key : κ) (c : Option Counter) : Limiter κ :=
  { s with redis := Function.update s.redis key c }

/-- `EXPIRE`, which does nothing without a counter. -/
def expireCounter (s : Limiter κ) (p : Policy) (key : κ) : Limiter κ :=
  s.setCounter key ((s.found key).map fun c => { c with expiresAt := some (s.now + p.span) })

def answer (p : Policy) (count : Nat) (ttl : Int) : Phase :=
  .answered (decide (count ≤ p.limit)) (p.limit - count) ttl

/-- The reply of the pipeline. -/
def counted (s : Limiter κ) (p : Policy) (key : κ) : Call κ :=
  let c := s.incr key
  { key
    phase := if s.ttl c = -1 then .expiring else answer p c.count (s.ttl c)
    counted := some ⟨s.now, c.count⟩ }

/-- What the command that a call waits for does in Redis. -/
def command (s : Limiter κ) (policy : κ → Policy) (call : Call κ) : Limiter κ :=
  match call.phase with
  | .counting => s.setCounter call.key (s.incr call.key)
  | .expiring => s.expireCounter (policy call.key) call.key
  | _ => s

def waiting (call : Call κ) : Bool := call.phase = .counting ∨ call.phase = .expiring

/-- `is_allowed`, command by command. -/
def step (policy : κ → Policy) (s : Limiter κ) : Step κ → Option (Limiter κ)
  | .tick now => if s.now ≤ now then some { s with now } else none
  | .arrive key => some { s with calls := s.calls ++ [⟨key, .counting, none⟩] }
  | .execute n => do
    let call ← s.calls[n]?
    if call.phase = .counting then
      some ((s.command policy call).setCall n (s.counted (policy call.key) call.key))
    else none
  | .expire n => do
    let call ← s.calls[n]?
    let told ← call.counted
    if call.phase = .expiring then
      some ((s.command policy call).setCall n
        { call with phase := answer (policy call.key) told.rank (policy call.key).window })
    else none
  | .fail n reached => do
    let call ← s.calls[n]?
    if waiting call then
      some ((if reached then s.command policy call else s).setCall n { call with phase := .failedOpen })
    else none
  | .stop n reached => do
    let call ← s.calls[n]?
    if waiting call then
      some ((if reached then s.command policy call else s).setCall n { call with phase := .stopped })
    else none

@[simp] theorem redis_setCounter_self (s : Limiter κ) (key : κ) (c : Option Counter) :
    (s.setCounter key c).redis key = c := Function.update_self ..

theorem redis_setCounter_of_ne (s : Limiter κ) {key other : κ} (apart : other ≠ key)
    (c : Option Counter) : (s.setCounter key c).redis other = s.redis other :=
  Function.update_of_ne apart ..

@[simp] theorem redis_expireCounter_self (s : Limiter κ) (p : Policy) (key : κ) :
    (s.expireCounter p key).redis key =
      (s.found key).map fun c => { c with expiresAt := some (s.now + p.span) } :=
  Function.update_self ..

omit [DecidableEq κ] in
@[simp] theorem redis_setCall (s : Limiter κ) (n : Nat) (call : Call κ) :
    (s.setCall n call).redis = s.redis := rfl

/-! ## What is admitted -/

section
variable (policy : κ → Policy)

/-- The time at which a call of the key was counted within the limit. -/
def admission (key : κ) (call : Call κ) : Option Nat :=
  if call.key = key then
    (call.counted.filter fun told => told.rank ≤ (policy key).limit).map Counted.time
  else none

def admissions (s : Limiter κ) (key : κ) : List Nat := s.calls.filterMap (admission policy key)

end

theorem filterMap_set {α β : Type*} {f : α → Option β} {x y : α} {l : List α} {n : Nat}
    (at_ : l[n]? = some x) (same : f y = f x) : (l.set n y).filterMap f = l.filterMap f := by
  induction l generalizing n with
  | nil => rfl
  | cons a l ih =>
    cases n with
    | zero =>
      rw [List.getElem?_cons_zero, Option.some.injEq] at at_
      rw [List.set_cons_zero, List.filterMap_cons, List.filterMap_cons, same, at_]
    | succ n =>
      rw [List.getElem?_cons_succ] at at_
      rw [List.set_cons_succ, List.filterMap_cons, List.filterMap_cons, ih at_]

theorem filterMap_set_perm {α β : Type*} {f : α → Option β} {x y : α} {b : β} {l : List α} {n : Nat}
    (at_ : l[n]? = some x) (old : f x = none) (new : f y = some b) :
    ((l.set n y).filterMap f).Perm (b :: l.filterMap f) := by
  induction l generalizing n with
  | nil => cases at_
  | cons a l ih =>
    cases n with
    | zero =>
      rw [List.getElem?_cons_zero, Option.some.injEq] at at_
      rw [List.set_cons_zero, List.filterMap_cons_some new, List.filterMap_cons_none (at_ ▸ old)]
    | succ n =>
      rw [List.getElem?_cons_succ] at at_
      rw [List.set_cons_succ]
      cases here : f a with
      | none => rw [List.filterMap_cons_none here, List.filterMap_cons_none here]; exact ih at_
      | some c =>
        rw [List.filterMap_cons_some here, List.filterMap_cons_some here]
        exact ((ih at_).cons c).trans (.swap b c _)

/-- The lives of a counter as epochs: what was admitted in each of them, and where the newest of them
stands. -/
structure Tracked (policy : κ → Policy) (s : Limiter κ) (key : κ) (epochs : List Epoch) : Prop where
  spaced : Spaced (policy key).span epochs
  bounded : ∀ e ∈ epochs, e.events.length ≤ (policy key).limit
  times : (admissions policy s key).Perm (events epochs)
  started : ∀ e ∈ epochs, e.start ≤ s.now
  past : ∀ t ∈ events epochs, t ≤ s.now
  live : ∀ c, s.redis key = some c → ∃ e rest, epochs = e :: rest ∧ e.events.length ≤ c.count ∧
    ∀ at_, c.expiresAt = some at_ → e.start + (policy key).span ≤ at_
  idle : s.redis key = none → ∀ e ∈ epochs, e.start + (policy key).span ≤ s.now

namespace Tracked

variable {policy : κ → Policy} {s s' : Limiter κ} {key : κ} {epochs : List Epoch}

theorem empty : Tracked policy (Limiter.empty : Limiter κ) key [] where
  spaced := .nil
  bounded := nofun
  times := .nil
  started := nofun
  past := nofun
  live := nofun
  idle := nofun

/-- What leaves the counter and the admissions of the key alone. -/
theorem of_quiet (h : Tracked policy s key epochs) (redis : s'.redis key = s.redis key)
    (same : admissions policy s' key = admissions policy s key) (later : s.now ≤ s'.now) :
    Tracked policy s' key epochs where
  spaced := h.spaced
  bounded := h.bounded
  times := same ▸ h.times
  started := fun e he => Nat.le_trans (h.started e he) later
  past := fun t ht => Nat.le_trans (h.past t ht) later
  live := fun c hc => h.live c (redis ▸ hc)
  idle := fun absent e he => Nat.le_trans (h.idle (redis ▸ absent) e he) later

/-- A counter that a command does not find has run its window. -/
theorem run_out (h : Tracked policy s key epochs) (gone : s.found key = none) :
    ∀ e ∈ epochs, e.start + (policy key).span ≤ s.now := by
  cases stored : s.redis key with
  | none => exact h.idle stored
  | some c =>
    obtain ⟨newest, rest, rfl, -, expires⟩ := h.live c stored
    cases at_ : c.expiresAt with
    | none => simp [found, stored, at_, Option.filter] at gone
    | some x =>
      have := expires x at_
      simp only [found, stored, Option.filter, at_, Option.all_some, decide_eq_true_eq,
        ite_eq_right_iff, reduceCtorEq, imp_false, Nat.not_le] at gone
      intro e he
      have := h.spaced.start_le he
      omega

omit [DecidableEq κ] in
theorem redis_of_found {c : Counter} (present : s.found key = some c) : s.redis key = some c := by
  rw [found, Option.filter_eq_some_iff] at present
  exact present.1

/-- `INCR` opens an epoch or goes on with the newest; either way it has room for one more. -/
theorem incr (h : Tracked policy s key epochs) :
    ∃ e rest, Tracked policy (s.setCounter key (some (s.incr key))) key (e :: rest) ∧
      e.events.length < (s.incr key).count := by
  have here := s.redis_setCounter_self key (some (s.incr key))
  cases present : s.found key with
  | none =>
    have fresh : s.incr key = ⟨1, none⟩ := by rw [Limiter.incr, present]
    refine ⟨⟨s.now, []⟩, epochs, ?_, by rw [fresh]; exact Nat.zero_lt_one⟩
    constructor
    · exact h.spaced.open_ h.past (h.run_out present)
    · exact List.forall_mem_cons.mpr ⟨Nat.zero_le _, h.bounded⟩
    · exact h.times
    · exact List.forall_mem_cons.mpr ⟨Nat.le_refl _, h.started⟩
    · exact h.past
    · intro c hc
      rw [here, fresh, Option.some.injEq] at hc
      subst hc
      exact ⟨_, _, rfl, Nat.zero_le _, nofun⟩
    · intro absent
      rw [here] at absent
      cases absent
  | some c =>
    obtain ⟨e, rest, rfl, room, expires⟩ := h.live c (redis_of_found present)
    have counted : s.incr key = { c with count := c.count + 1 } := by rw [Limiter.incr, present]
    refine ⟨e, rest, ?_, by rw [counted]; exact Nat.lt_succ_of_le room⟩
    refine { h with live := ?_, idle := ?_ }
    · intro d hd
      rw [here, counted, Option.some.injEq] at hd
      subst hd
      exact ⟨_, _, rfl, Nat.le_succ_of_le room, expires⟩
    · intro absent
      rw [here] at absent
      cases absent

/-- A call that is counted within the limit is an event of the newest epoch. -/
theorem record {e : Epoch} {rest : List Epoch} (h : Tracked policy s key (e :: rest)) {c : Counter}
    (stored : s.redis key = some c) (room : e.events.length < c.count)
    (within : c.count ≤ (policy key).limit) {n : Nat} {old new : Call κ} (at_ : s.calls[n]? = some old)
    (before : admission policy key old = none) (after : admission policy key new = some s.now) :
    Tracked policy (s.setCall n new) key ({ e with events := s.now :: e.events } :: rest) where
  spaced := h.spaced.record (h.started e List.mem_cons_self)
  bounded := by
    have bounded := List.forall_mem_cons.mp h.bounded
    refine List.forall_mem_cons.mpr ⟨?_, bounded.2⟩
    rw [List.length_cons]
    omega
  times := (filterMap_set_perm at_ before after).trans (h.times.cons s.now)
  started := List.forall_mem_cons.mpr (List.forall_mem_cons.mp h.started)
  past := List.forall_mem_cons.mpr ⟨Nat.le_refl _, h.past⟩
  live := by
    intro d hd
    obtain rfl : c = d := Option.some.inj (stored.symm.trans hd)
    obtain ⟨x, y, same, -, expires⟩ := h.live c stored
    obtain ⟨rfl, rfl⟩ := List.cons.inj same
    exact ⟨_, _, rfl, by rw [List.length_cons]; exact room, expires⟩
  idle := fun absent => nomatch stored.symm.trans absent

/-- `EXPIRE` never shortens the life of a counter below a window. -/
theorem expire (h : Tracked policy s key epochs) :
    Tracked policy (s.expireCounter (policy key) key) key epochs := by
  have here := s.redis_expireCounter_self (policy key) key
  cases present : s.found key with
  | none =>
    rw [present, Option.map_none] at here
    exact { h with
      live := fun c hc => nomatch here.symm.trans hc
      idle := fun _ => h.run_out present }
  | some c =>
    rw [present, Option.map_some] at here
    refine { h with live := ?_, idle := fun absent => nomatch here.symm.trans absent }
    intro d hd
    obtain rfl := Option.some.inj (here.symm.trans hd)
    obtain ⟨e, rest, rfl, room, -⟩ := h.live c (redis_of_found present)
    refine ⟨e, rest, rfl, room, fun x hx => ?_⟩
    obtain rfl := Option.some.inj hx
    exact Nat.add_le_add_right (h.started e List.mem_cons_self) _

end Tracked

/-! ## What a step does -/

/-- What a call knows of its count. -/
structure Formed (policy : κ → Policy) (call : Call κ) : Prop where
  uncounted : call.phase = .counting → call.counted = none
  told : ∀ remaining reset, call.phase = .answered true remaining reset →
    ∃ told, call.counted = some told ∧ told.rank ≤ (policy call.key).limit

structure Kept (policy : κ → Policy) (s : Limiter κ) : Prop where
  formed : ∀ call ∈ s.calls, Formed policy call
  tracked : ∀ key, ∃ epochs, Tracked policy s key epochs

section
variable {policy : κ → Policy} {s s' : Limiter κ}

omit [DecidableEq κ] in
theorem formed_setCall (h : ∀ call ∈ s.calls, Formed policy call) {n : Nat} {new : Call κ}
    (formed : Formed policy new) : ∀ call ∈ (s.setCall n new).calls, Formed policy call := by
  intro call mem
  rcases List.mem_or_eq_of_mem_set mem with mem | rfl
  · exact h call mem
  · exact formed

theorem tracked_setCall {key : κ} {epochs : List Epoch} (h : Tracked policy s key epochs) {n : Nat}
    {old new : Call κ} (at_ : s.calls[n]? = some old)
    (same : admission policy key new = admission policy key old) :
    Tracked policy (s.setCall n new) key epochs :=
  h.of_quiet rfl (filterMap_set at_ same) (Nat.le_refl _)

theorem tracked_setCounter {key other : κ} {epochs : List Epoch} (h : Tracked policy s key epochs)
    (apart : other ≠ key) (c : Option Counter) :
    Tracked policy (s.setCounter other c) key epochs :=
  h.of_quiet (s.redis_setCounter_of_ne (Ne.symm apart) c) rfl (Nat.le_refl _)

/-- A command keeps the lives of every counter, whoever gets its reply. -/
theorem tracked_command {key : κ} {epochs : List Epoch} (h : Tracked policy s key epochs)
    (call : Call κ) : ∃ epochs, Tracked policy (s.command policy call) key epochs := by
  unfold command
  split
  · by_cases here : call.key = key
    · subst here
      obtain ⟨e, rest, kept, -⟩ := h.incr
      exact ⟨_, kept⟩
    · exact ⟨_, tracked_setCounter h here _⟩
  · by_cases here : call.key = key
    · subst here
      exact ⟨_, h.expire⟩
    · exact ⟨_, tracked_setCounter h here _⟩
  · exact ⟨_, h⟩

theorem command_calls (call : Call κ) : (s.command policy call).calls = s.calls := by
  unfold command
  split <;> rfl

theorem kept_command (h : Kept policy s) (call : Call κ) : Kept policy (s.command policy call) where
  formed := by
    rw [command_calls]
    exact h.formed
  tracked := by
    intro key
    obtain ⟨epochs, tracked⟩ := h.tracked key
    exact tracked_command tracked call

/-- A call that gets an answer without being counted again. -/
theorem kept_setCall (h : Kept policy s) {n : Nat} {old : Call κ} (at_ : s.calls[n]? = some old)
    {phase : Phase} (formed : Formed policy { old with phase }) :
    Kept policy (s.setCall n { old with phase }) where
  formed := formed_setCall h.formed formed
  tracked := by
    intro key
    obtain ⟨epochs, tracked⟩ := h.tracked key
    exact ⟨epochs, tracked_setCall tracked at_ rfl⟩

omit [DecidableEq κ] in
theorem formed_of_failed {call : Call κ} {phase : Phase} (end_ : phase = .failedOpen ∨ phase = .stopped) :
    Formed policy { call with phase } where
  uncounted := by rintro rfl; simp at end_
  told := by rintro _ _ rfl; simp at end_

omit [DecidableEq κ] in
theorem formed_answer {call : Call κ} {told : Counted} (counted : call.counted = some told)
    (ttl : Int) : Formed policy { call with phase := answer (policy call.key) told.rank ttl } where
  uncounted := nofun
  told := by
    intro remaining reset same
    simp only [answer, Phase.answered.injEq, decide_eq_true_eq] at same
    exact ⟨told, counted, same.1⟩

omit [DecidableEq κ] in
theorem formed_counted (key : κ) : Formed policy (s.counted (policy key) key) where
  uncounted := by
    intro same
    simp only [counted] at same
    split at same <;> cases same
  told := by
    intro remaining reset same
    refine ⟨_, rfl, ?_⟩
    simp only [counted] at same
    split at same
    · cases same
    · simp only [answer, Phase.answered.injEq, decide_eq_true_eq] at same
      exact same.1

/-- The pipeline counts its call in the newest epoch, when the count is within the limit. -/
theorem kept_execute (h : Kept policy s) {n : Nat} {call : Call κ} (at_ : s.calls[n]? = some call)
    (counting : call.phase = .counting) :
    Kept policy ((s.command policy call).setCall n (s.counted (policy call.key) call.key)) where
  formed := formed_setCall (kept_command h call).formed (formed_counted call.key)
  tracked := by
    intro key
    have uncounted := (h.formed call (List.mem_of_getElem? at_)).uncounted counting
    have before : admission policy key call = none := by simp [admission, uncounted]
    have command : s.command policy call = s.setCounter call.key (some (s.incr call.key)) := by
      rw [Limiter.command, counting]
    rw [command]
    obtain ⟨epochs, tracked⟩ := h.tracked key
    by_cases here : call.key = key
    · subst here
      obtain ⟨e, rest, opened, room⟩ := tracked.incr
      by_cases within : (s.incr call.key).count ≤ (policy call.key).limit
      · exact ⟨_, opened.record (s.redis_setCounter_self ..) room within at_ before
          (by simp [admission, counted, setCounter, Option.filter, within])⟩
      · exact ⟨_, tracked_setCall opened at_
          (by rw [before]; simp [admission, counted, Option.filter, within])⟩
    · exact ⟨epochs, tracked_setCall (tracked_setCounter tracked here _) at_
        (by rw [before]; simp [admission, counted, here])⟩

theorem kept_end (h : Kept policy s) {n : Nat} {call : Call κ} (at_ : s.calls[n]? = some call)
    (reached : Bool) {phase : Phase} (end_ : phase = .failedOpen ∨ phase = .stopped) :
    Kept policy ((if reached then s.command policy call else s).setCall n { call with phase }) := by
  cases reached with
  | false => exact kept_setCall h at_ (formed_of_failed end_)
  | true =>
    refine kept_setCall (kept_command h call) ?_ (formed_of_failed end_)
    rw [command_calls]
    exact at_

theorem step_kept {a : Step κ} (h : Kept policy s) (hs : step policy s a = some s') :
    Kept policy s' := by
  cases a with
  | tick now =>
    simp only [step, Option.ite_none_right_eq_some, Option.some.injEq] at hs
    obtain ⟨later, rfl⟩ := hs
    refine ⟨h.formed, fun key => ?_⟩
    obtain ⟨epochs, tracked⟩ := h.tracked key
    exact ⟨epochs, tracked.of_quiet rfl rfl later⟩
  | arrive key =>
    simp only [step, Option.some.injEq] at hs
    subst hs
    refine ⟨fun call mem => ?_, fun other => ?_⟩
    · rcases List.mem_append.mp mem with mem | mem
      · exact h.formed call mem
      · obtain rfl := List.mem_singleton.mp mem
        exact ⟨fun _ => rfl, nofun⟩
    · obtain ⟨epochs, tracked⟩ := h.tracked other
      refine ⟨epochs, tracked.of_quiet rfl ?_ (Nat.le_refl _)⟩
      simp [admissions, admission]
  | execute n =>
    simp only [step, Option.bind_eq_bind, Option.bind_eq_some_iff, Option.ite_none_right_eq_some,
      Option.some.injEq] at hs
    obtain ⟨call, at_, counting, rfl⟩ := hs
    exact kept_execute h at_ counting
  | expire n =>
    simp only [step, Option.bind_eq_bind, Option.bind_eq_some_iff, Option.ite_none_right_eq_some,
      Option.some.injEq] at hs
    obtain ⟨call, at_, told, counted, -, rfl⟩ := hs
    refine kept_setCall (kept_command h call) ?_ (formed_answer counted _)
    rw [command_calls]
    exact at_
  | fail n reached =>
    simp only [step, Option.bind_eq_bind, Option.bind_eq_some_iff, Option.ite_none_right_eq_some,
      Option.some.injEq] at hs
    obtain ⟨call, at_, -, rfl⟩ := hs
    exact kept_end h at_ reached (.inl rfl)
  | stop n reached =>
    simp only [step, Option.bind_eq_bind, Option.bind_eq_some_iff, Option.ite_none_right_eq_some,
      Option.some.injEq] at hs
    obtain ⟨call, at_, -, rfl⟩ := hs
    exact kept_end h at_ reached (.inr rfl)

theorem empty_kept : Kept policy (Limiter.empty : Limiter κ) := ⟨nofun, fun _ => ⟨[], .empty⟩⟩

theorem reaches_kept {admitted : Limiter κ → Step κ → Prop}
    (run : Reaches (step policy) admitted .empty s) : Kept policy s :=
  run.invariant (fun _ _ _ kept _ next => step_kept kept next) empty_kept

end

/-! ## What a key admits -/

/-- The call was let through by its count. -/
def allowed (call : Call κ) : Bool :=
  match call.phase with
  | .answered isAllowed _ _ => isAllowed
  | _ => false

def countedIn (call : Call κ) (first width : Nat) : Bool :=
  call.counted.any fun told => first ≤ told.time ∧ told.time < first + width

/-- Three calls of a key at once with a limit of two, and one behind the window. -/
def burst : List (Step Unit) :=
  [.arrive (), .arrive (), .arrive (), .execute 0, .execute 2, .execute 1, .expire 1, .expire 0,
    .expire 2, .tick 60001, .arrive (), .execute 3, .expire 3]

def twoAMinute : Unit → Policy := fun _ => ⟨2, 60, by decide⟩

/-- A counter without an expiry is about to get one from a caller that has seen that it has none. -/
structure Serving (policy : κ → Policy) (s : Limiter κ) : Prop where
  ending : ∀ key c, s.redis key = some c → c.expiresAt = none →
    ∃ (n : Nat) (call : Call κ), s.calls[n]? = some call ∧ call.key = key ∧ call.phase = .expiring
  near : ∀ key c at_, s.redis key = some c → c.expiresAt = some at_ → at_ ≤ s.now + (policy key).span

section
variable {policy : κ → Policy} {s s' : Limiter κ}

omit [DecidableEq κ] in
theorem ttl_eq_iff {c : Counter} : s.ttl c = -1 ↔ c.expiresAt = none := by
  unfold ttl
  cases c.expiresAt with
  | none => simp
  | some at_ => simp only [reduceCtorEq]

omit [DecidableEq κ] in
theorem incr_expiresAt {key : κ} {at_ : Nat} (expires : (s.incr key).expiresAt = some at_) :
    ∃ c, s.redis key = some c ∧ c.expiresAt = some at_ := by
  unfold incr at expires
  split at expires
  · cases expires
  · rename_i c present
    exact ⟨c, Tracked.redis_of_found present, expires⟩

omit [DecidableEq κ] in
/-- Another call than the one that moves goes on waiting. -/
theorem getElem?_setCall_of_ne {n m : Nat} {new : Call κ} (apart : n ≠ m) :
    (s.setCall n new).calls[m]? = s.calls[m]? := List.getElem?_set_ne apart

theorem serving_execute (h : Serving policy s) {n : Nat} {call : Call κ}
    (at_ : s.calls[n]? = some call) (counting : call.phase = .counting) :
    Serving policy ((s.setCounter call.key (some (s.incr call.key))).setCall n
      (s.counted (policy call.key) call.key)) where
  ending := by
    intro key c stored endless
    by_cases here : key = call.key
    · subst here
      rw [redis_setCall, redis_setCounter_self, Option.some.injEq] at stored
      subst stored
      refine ⟨n, _, List.getElem?_set_self (List.getElem?_eq_some_iff.mp at_).1, rfl, ?_⟩
      exact if_pos (ttl_eq_iff.mpr endless)
    · have other : s.redis key = some c := (Function.update_of_ne here ..).symm.trans stored
      obtain ⟨m, waits, found, same, phase⟩ := h.ending key c other endless
      refine ⟨m, waits, ?_, same, phase⟩
      rw [getElem?_setCall_of_ne]
      · exact found
      · rintro rfl
        obtain rfl := Option.some.inj (at_.symm.trans found)
        exact nomatch counting.symm.trans phase
  near := by
    intro key c x stored expires
    by_cases here : key = call.key
    · subst here
      rw [redis_setCall, redis_setCounter_self, Option.some.injEq] at stored
      subst stored
      obtain ⟨d, before, same⟩ := incr_expiresAt expires
      exact h.near _ d x before same
    · rw [redis_setCall, redis_setCounter_of_ne s here] at stored
      exact h.near key c x stored expires

theorem serving_expire (h : Serving policy s) {n : Nat} {call new : Call κ}
    (at_ : s.calls[n]? = some call) :
    Serving policy ((s.expireCounter (policy call.key) call.key).setCall n new) where
  ending := by
    intro key c stored endless
    by_cases here : key = call.key
    · subst here
      rw [redis_setCall, redis_expireCounter_self] at stored
      obtain ⟨d, -, rfl⟩ := Option.map_eq_some_iff.mp stored
      cases endless
    · have other : s.redis key = some c := (Function.update_of_ne here ..).symm.trans stored
      obtain ⟨m, waits, found, same, phase⟩ := h.ending key c other endless
      refine ⟨m, waits, ?_, same, phase⟩
      rw [getElem?_setCall_of_ne]
      · exact found
      · rintro rfl
        exact here (same.symm.trans (congrArg Call.key (Option.some.inj (found.symm.trans at_))))
  near := by
    intro key c x stored expires
    by_cases here : key = call.key
    · subst here
      rw [redis_setCall, redis_expireCounter_self] at stored
      obtain ⟨d, -, rfl⟩ := Option.map_eq_some_iff.mp stored
      exact Nat.le_of_eq (Option.some.inj expires).symm
    · rw [redis_setCall, expireCounter, redis_setCounter_of_ne s here] at stored
      exact h.near key c x stored expires

theorem step_serving {a : Step κ} (h : Serving policy s) (completes : a.completes = true)
    (hs : step policy s a = some s') : Serving policy s' := by
  cases a with
  | tick now =>
    simp only [step, Option.ite_none_right_eq_some, Option.some.injEq] at hs
    obtain ⟨later, rfl⟩ := hs
    refine ⟨h.ending, fun key c at_ stored expires => ?_⟩
    exact Nat.le_trans (h.near key c at_ stored expires) (Nat.add_le_add_right later _)
  | arrive key =>
    simp only [step, Option.some.injEq] at hs
    subst hs
    refine ⟨fun other c stored endless => ?_, h.near⟩
    obtain ⟨n, call, found, rest⟩ := h.ending other c stored endless
    refine ⟨n, call, ?_, rest⟩
    rw [List.getElem?_append_left (List.getElem?_eq_some_iff.mp found).1]
    exact found
  | execute n =>
    simp only [step, Option.bind_eq_bind, Option.bind_eq_some_iff, Option.ite_none_right_eq_some,
      Option.some.injEq] at hs
    obtain ⟨call, at_, counting, rfl⟩ := hs
    rw [Limiter.command, counting]
    exact serving_execute h at_ counting
  | expire n =>
    simp only [step, Option.bind_eq_bind, Option.bind_eq_some_iff, Option.ite_none_right_eq_some,
      Option.some.injEq] at hs
    obtain ⟨call, at_, told, -, expiring, rfl⟩ := hs
    rw [Limiter.command, expiring]
    exact serving_expire h at_
  | fail => cases completes
  | stop => cases completes

end

/-- When no caller fails or stops, a key that nobody is using counts from one again as soon as its
window has passed: no counter is left behind that never runs out. -/
theorem counts_anew {policy : κ → Policy} {s : Limiter κ}
    (run : Reaches (step policy) (fun _ a => a.completes = true) .empty s) (key : κ)
    (quiet : ∀ call ∈ s.calls, call.key = key → call.phase ≠ .expiring) (later : Nat)
    (passed : s.now + (policy key).span < later) : ({ s with now := later }).incr key = ⟨1, none⟩ := by
  have serving : Serving policy s :=
    run.invariant (fun _ _ _ kept completes next => step_serving kept completes next)
      ⟨nofun, nofun⟩
  have gone : ({ s with now := later } : Limiter κ).found key = none := by
    cases stored : s.redis key with
    | none => rw [found, stored, Option.filter_none]
    | some c =>
      cases expires : c.expiresAt with
      | none =>
        obtain ⟨n, call, mem, here, phase⟩ := serving.ending key c stored expires
        exact absurd phase (quiet call (List.mem_of_getElem? mem) here)
      | some at_ =>
        have near := serving.near key c at_ stored expires
        simp only [found, stored, Option.filter, expires, Option.all_some]
        rw [if_neg]
        rw [decide_eq_true_eq]
        omega
  rw [incr, gone]

theorem counts_anew_burst : ∃ s : Limiter Unit,
    s.now = 60001 ∧ ({ s with now := 120002 }).incr () = ⟨1, none⟩ := by
  obtain ⟨s, run, now, quiet⟩ := exists_reaches_of_runAll (step twoAMinute)
    (fun _ a => a.completes = true) .empty burst
    (fun s => s.now = 60001 ∧ ∀ call ∈ s.calls, call.phase ≠ .expiring) (by decide)
  refine ⟨s, now, counts_anew run () (fun call mem _ => quiet call mem) 120002 ?_⟩
  rw [now]
  decide

end Limiter

/-! ## The keys of the requests -/

/-- The endpoint categories of `RATE_LIMITS`. -/
inductive Category
  | default | upload | export | ocr | auth | search
deriving DecidableEq, Repr

def Category.name : Category → List Char
  | .default => ['d', 'e', 'f', 'a', 'u', 'l', 't']
  | .upload => ['u', 'p', 'l', 'o', 'a', 'd']
  | .export => ['e', 'x', 'p', 'o', 'r', 't']
  | .ocr => ['o', 'c', 'r']
  | .auth => ['a', 'u', 't', 'h']
  | .search => ['s', 'e', 'a', 'r', 'c', 'h']

/-- `RATE_LIMITS` -/
def rateLimits : Category → Policy
  | .default => ⟨100, 60, by decide⟩
  | .upload => ⟨10, 60, by decide⟩
  | .export => ⟨20, 60, by decide⟩
  | .ocr => ⟨5, 60, by decide⟩
  | .auth => ⟨20, 60, by decide⟩
  | .search => ⟨30, 60, by decide⟩

/-- Who is limited: a user or an address in a category, or an API key. -/
inductive Bucket
  | user (userId : List Char) (category : Category)
  | ip (clientIp : List Char) (category : Category)
  | apiKey (keyId : List Char)
deriving DecidableEq, Repr

/-- The key of a request, which `get_rate_limit_key` names after its user or its address. -/
def Bucket.ofRequest (networks : List ClientIp.IpNetwork) (request : ClientIp.Request)
    (userId : Option (List Char)) (category : Category) : Bucket :=
  match userId.filter (· ≠ []) with
  | some userId => .user userId category
  | none => .ip (ClientIp.resolveClientIp networks request) category

def Bucket.key : Bucket → List Char
  | .user userId category => "user:".toList ++ userId ++ ':' :: category.name
  | .ip clientIp category => "ip:".toList ++ clientIp ++ ':' :: category.name
  | .apiKey keyId => "api_key:".toList ++ keyId

/-- The key in Redis, behind `PREFIX`. -/
def Bucket.fullKey (bucket : Bucket) : List Char := "ratelimit:".toList ++ bucket.key

/-- The limit of an API key is `rate_limit` of its row, for a minute. -/
def Bucket.policy (rateLimit : List Char → Nat) : Bucket → Policy
  | .user _ category | .ip _ category => rateLimits category
  | .apiKey keyId => ⟨rateLimit keyId, 60, by decide⟩

theorem Bucket.key_ofRequest (networks : List ClientIp.IpNetwork) (request : ClientIp.Request)
    (userId : Option (List Char)) (category : Category) :
    (ofRequest networks request userId category).key =
      ClientIp.getRateLimitKey networks request userId ++ ':' :: category.name := by
  unfold ofRequest ClientIp.getRateLimitKey
  cases userId.filter (· ≠ []) <;> rfl

theorem Category.colon_not_mem_name (category : Category) : ':' ∉ category.name := by
  cases category <;> decide

theorem Category.name_injective {a b : Category} (same : a.name = b.name) : a = b := by
  cases a <;> cases b <;> first | rfl | cases same

theorem split_tagged {tag x y a b : List Char} (same : tag ++ x ++ ':' :: a = tag ++ y ++ ':' :: b)
    (ha : ':' ∉ a) (hb : ':' ∉ b) : x = y ∧ a = b := by
  obtain ⟨start, rest⟩ := Text.split_last same ha hb
  exact ⟨List.append_cancel_left start, rest⟩

/-- Users, addresses and API keys do not share a counter, and neither do two categories of one. -/
theorem Bucket.fullKey_injective {a b : Bucket} (same : a.fullKey = b.fullKey) : a = b := by
  have key : a.key = b.key := List.append_cancel_left same
  cases a with
  | user x c =>
    cases b with
    | user y d =>
      obtain ⟨rfl, names⟩ := split_tagged key c.colon_not_mem_name d.colon_not_mem_name
      rw [Category.name_injective names]
    | ip => cases key
    | apiKey => cases key
  | ip x c =>
    cases b with
    | ip y d =>
      obtain ⟨rfl, names⟩ := split_tagged key c.colon_not_mem_name d.colon_not_mem_name
      rw [Category.name_injective names]
    | user => cases key
    | apiKey => cases key
  | apiKey x =>
    cases b with
    | apiKey y =>
      have names : "api_key:".toList ++ x = "api_key:".toList ++ y := key
      rw [List.append_cancel_left names]
    | user => cases key
    | ip => cases key

end GigaPdf.RateLimits
