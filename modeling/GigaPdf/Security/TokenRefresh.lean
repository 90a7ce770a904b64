import GigaPdf.Lib.Runs
import Mathlib.Data.List.Nodup

/-!
# The refresh of tokens

The interceptors of `client.ts`. The first request that is answered with 401 asks for new tokens;
the requests that are answered so in the meantime wait in a queue for what becomes of it. Requests
are numbered; what happens between two answers of the network is one step.
-/

namespace GigaPdf.TokenRefresh

open Runs

/-- How the promise of a request is settled. -/
inductive Settled
  | response | apiError | noRefreshToken | refreshFailed | refreshError
deriving DecidableEq, Repr

inductive Phase
  | idle
  | sent
  | queued
  | refreshing
  | settled (as : Settled)
deriving DecidableEq, Repr

/-- The variables of the module with the requests and the stored tokens. -/
structure Client (τ : Type) where
  phase : Nat → Phase
  /-- The header that a request was last sent with. -/
  authorization : Nat → Option τ
  /-- `_retry` -/
  retry : Nat → Bool
  isRefreshing : Bool
  failedQueue : List Nat
  accessToken : Option τ
  refreshToken : Option τ
  /-- How often the user was logged out. -/
  unauthorized : Nat

inductive Event (τ : Type)
  | send (r : Nat)
  /-- An answer other than 401, or none. -/
  | answered (r : Nat) (ok : Bool)
  | unauthorized (r : Nat)
  | refreshed (r : Nat) (accessToken refreshToken : τ)
  | refreshRejected (r : Nat)
  | setTokens (accessToken refreshToken : τ)
  | clearTokens

namespace Client

variable {τ : Type}

def initial : Client τ := ⟨fun _ => .idle, fun _ => none, fun _ => false, false, [], none, none, 0⟩

def setPhase (s : Client τ) (r : Nat) (phase : Phase) : Client τ :=
  { s with phase := fun q => if q = r then phase else s.phase q }

@[simp]
theorem phase_setPhase (s : Client τ) (r : Nat) (phase : Phase) (q : Nat) :
    (s.setPhase r phase).phase q = if q = r then phase else s.phase q := rfl

@[simp]
theorem isRefreshing_setPhase (s : Client τ) (r : Nat) (phase : Phase) :
    (s.setPhase r phase).isRefreshing = s.isRefreshing := rfl

/-- The request interceptor: a header is replaced only where there is a token. -/
def sendAll (s : Client τ) (rs : List Nat) : Client τ :=
  { s with
    phase := fun q => if q ∈ rs then .sent else s.phase q
    authorization := fun q => if q ∈ rs then s.accessToken.or (s.authorization q)
      else s.authorization q }

def logout (s : Client τ) : Client τ :=
  { s with accessToken := none, refreshToken := none, unauthorized := s.unauthorized + 1 }

/-- The branch of 401. -/
def onUnauthorized (s : Client τ) (r : Nat) : Client τ :=
  if s.retry r then s.setPhase r (.settled .apiError)
  else if s.isRefreshing then
    { s.setPhase r .queued with failedQueue := s.failedQueue ++ [r] }
  else
    let s := { s with retry := fun q => if q = r then true else s.retry q, isRefreshing := true }
    match s.refreshToken with
    | none => s.logout.setPhase r (.settled .noRefreshToken)
    | some _ => s.setPhase r .refreshing

/-- `processQueue(null, access_token)`, and the request that asked goes out again. -/
def onRefreshed (s : Client τ) (r : Nat) (accessToken refreshToken : τ) : Client τ :=
  let s := { s with accessToken := some accessToken, refreshToken := some refreshToken }
  { s.sendAll (r :: s.failedQueue) with failedQueue := [], isRefreshing := false }

/-- `processQueue(refreshError, null)` -/
def onRejected (s : Client τ) (r : Nat) : Client τ :=
  { s.logout with
    phase := fun q => if q = r then .settled .refreshFailed
      else if q ∈ s.failedQueue then .settled .refreshError else s.phase q
    failedQueue := []
    isRefreshing := false }

@[simp]
theorem phase_onRefreshed (s : Client τ) (r : Nat) (a b : τ) (q : Nat) :
    (s.onRefreshed r a b).phase q = if q ∈ r :: s.failedQueue then .sent else s.phase q := rfl

@[simp]
theorem phase_onRejected (s : Client τ) (r q : Nat) :
    (s.onRejected r).phase q = if q = r then .settled .refreshFailed
      else if q ∈ s.failedQueue then .settled .refreshError else s.phase q := rfl

def step (s : Client τ) : Event τ → Option (Client τ)
  | .send r => if s.phase r = .idle then some (s.sendAll [r]) else none
  | .answered r ok =>
    if s.phase r = .sent then some (s.setPhase r (.settled (if ok then .response else .apiError)))
    else none
  | .unauthorized r => if s.phase r = .sent then some (s.onUnauthorized r) else none
  | .refreshed r a b => if s.phase r = .refreshing then some (s.onRefreshed r a b) else none
  | .refreshRejected r => if s.phase r = .refreshing then some (s.onRejected r) else none
  | .setTokens a b => some { s with accessToken := some a, refreshToken := some b }
  | .clearTokens => some { s with accessToken := none, refreshToken := none }

/-- Where a refresh begins, there is a token for it. -/
def HasToken (s : Client τ) : Event τ → Prop
  | .unauthorized r => s.retry r = false → s.isRefreshing = false → s.refreshToken.isSome
  | _ => True

instance (s : Client τ) : (e : Event τ) → Decidable (HasToken s e)
  | .unauthorized _ => inferInstanceAs (Decidable (_ → _ → _))
  | .send _ | .answered _ _ | .refreshed _ _ _ | .refreshRejected _ => .isTrue trivial
  | .setTokens _ _ | .clearTokens => .isTrue trivial

/-! ## Runs in which there is a token -/

/-- Just one request asks for tokens while others wait, and none otherwise. -/
structure Coherent (s : Client τ) : Prop where
  asking : s.isRefreshing = true ↔ ∃ r, s.phase r = .refreshing
  unique : ∀ r q, s.phase r = .refreshing → s.phase q = .refreshing → r = q
  queue : ∀ r, s.phase r = .queued ↔ r ∈ s.failedQueue
  nodup : s.failedQueue.Nodup
  quiet : s.isRefreshing = false → s.failedQueue = []

theorem coherent_initial : (initial : Client τ).Coherent where
  asking := by simp [initial]
  unique := by simp [initial]
  queue := by simp [initial]
  nodup := .nil
  quiet _ := rfl

/-- Who waits and who asks is all that matters. -/
theorem Coherent.of_phase {s t : Client τ} (h : s.Coherent)
    (queued : ∀ q, t.phase q = .queued ↔ s.phase q = .queued)
    (refreshing : ∀ q, t.phase q = .refreshing ↔ s.phase q = .refreshing)
    (flag : t.isRefreshing = s.isRefreshing) (queue : t.failedQueue = s.failedQueue) :
    t.Coherent where
  asking := by simpa [flag, refreshing] using h.asking
  unique r q hr hq := h.unique r q ((refreshing r).mp hr) ((refreshing q).mp hq)
  queue r := by rw [queued, queue, h.queue]
  nodup := queue ▸ h.nodup
  quiet off := queue ▸ h.quiet (flag ▸ off)

/-- Nobody asks, and nobody waits. -/
theorem coherent_quiet {t : Client τ} (queued : ∀ q, t.phase q ≠ .queued)
    (refreshing : ∀ q, t.phase q ≠ .refreshing) (flag : t.isRefreshing = false)
    (queue : t.failedQueue = []) : t.Coherent where
  asking := by simp [flag, refreshing]
  unique r q hr := absurd hr (refreshing r)
  queue r := by simp [queue, queued]
  nodup := queue ▸ .nil
  quiet _ := queue

/-- A request that neither waits nor asks, before and after. -/
theorem Coherent.setPhase {s : Client τ} (h : s.Coherent) {r : Nat} {phase : Phase}
    (before : s.phase r ≠ .queued ∧ s.phase r ≠ .refreshing)
    (after : phase ≠ .queued ∧ phase ≠ .refreshing) : (s.setPhase r phase).Coherent := by
  refine h.of_phase (fun q => ?_) (fun q => ?_) rfl rfl
  · by_cases here : q = r
    · simp [Client.setPhase, here, before.1, after.1]
    · simp [Client.setPhase, here]
  · by_cases here : q = r
    · simp [Client.setPhase, here, before.2, after.2]
    · simp [Client.setPhase, here]

/-- A request joins those that wait. -/
theorem Coherent.enqueue {s : Client τ} (h : s.Coherent) {r : Nat} (sent : s.phase r = .sent)
    (asking : s.isRefreshing = true) :
    Coherent { s.setPhase r .queued with failedQueue := s.failedQueue ++ [r] } := by
  have outside : r ∉ s.failedQueue := by
    rw [← h.queue, sent]
    nofun
  have refreshing : ∀ q,
      (s.setPhase r .queued).phase q = .refreshing ↔ s.phase q = .refreshing := by
    intro q
    by_cases here : q = r <;> simp [here, sent]
  refine ⟨?_, ?_, ?_, ?_, ?_⟩
  · simpa only [refreshing, isRefreshing_setPhase] using h.asking
  · intro q q' hq hq'
    exact h.unique q q' ((refreshing q).mp hq) ((refreshing q').mp hq')
  · intro q
    rw [phase_setPhase, List.mem_append, List.mem_singleton, ← h.queue]
    by_cases here : q = r <;> simp [here]
  · exact List.nodup_append.mpr ⟨h.nodup, List.nodup_singleton r, by
      rintro q mem _ last rfl
      exact outside (List.mem_singleton.mp last ▸ mem)⟩
  · intro quiet
    rw [isRefreshing_setPhase, asking] at quiet
    cases quiet

/-- A request asks for tokens. -/
theorem Coherent.ask {s t : Client τ} (h : s.Coherent) {r : Nat} (quiet : s.isRefreshing = false)
    (phase : t.phase = (s.setPhase r .refreshing).phase) (flag : t.isRefreshing = true)
    (queue : t.failedQueue = s.failedQueue) (sent : s.phase r = .sent) : t.Coherent := by
  have nobody : ∀ q, s.phase q ≠ .refreshing := by
    intro q asks
    have asking := h.asking.mpr ⟨q, asks⟩
    rw [quiet] at asking
    cases asking
  have only : ∀ q, t.phase q = .refreshing ↔ q = r := by
    intro q
    rw [phase, phase_setPhase]
    by_cases here : q = r <;> simp [here, nobody]
  refine ⟨?_, ?_, ?_, queue ▸ h.nodup, fun _ => queue ▸ h.quiet quiet⟩
  · exact iff_of_true flag ⟨r, (only r).mpr rfl⟩
  · intro q q' hq hq'
    rw [(only q).mp hq, (only q').mp hq']
  · intro q
    rw [queue, ← h.queue, phase, phase_setPhase]
    by_cases here : q = r <;> simp [here, sent]

theorem coherent_onUnauthorized {s : Client τ} (h : s.Coherent) {r : Nat} (sent : s.phase r = .sent)
    (token : s.retry r = false → s.isRefreshing = false → s.refreshToken.isSome) :
    (s.onUnauthorized r).Coherent := by
  rw [onUnauthorized]
  split
  · exact h.setPhase (by simp [sent]) (by simp)
  · rename_i first
    split
    · rename_i asking
      exact h.enqueue sent asking
    · rename_i quiet
      obtain ⟨b, stored⟩ := Option.isSome_iff_exists.mp
        (token (Bool.not_eq_true _ ▸ first) (Bool.not_eq_true _ ▸ quiet))
      simp only [stored]
      exact h.ask (by simpa using quiet) rfl rfl rfl sent

theorem coherent_onRefreshed {s : Client τ} {r : Nat} (h : s.Coherent)
    (asks : s.phase r = .refreshing) (a b : τ) : (s.onRefreshed r a b).Coherent := by
  refine coherent_quiet (fun q => ?_) (fun q => ?_) rfl rfl
  · rw [phase_onRefreshed]
    split
    · nofun
    · rename_i outside
      rw [Ne, h.queue]
      exact fun mem => outside (List.mem_cons_of_mem r mem)
  · rw [phase_onRefreshed]
    split
    · nofun
    · rename_i outside
      exact fun other => outside (h.unique q r other asks ▸ List.mem_cons_self)

theorem coherent_onRejected {s : Client τ} {r : Nat} (h : s.Coherent)
    (asks : s.phase r = .refreshing) : (s.onRejected r).Coherent := by
  refine coherent_quiet (fun q => ?_) (fun q => ?_) rfl rfl
  · rw [phase_onRejected]
    split
    · nofun
    · split
      · nofun
      · rename_i outside
        rwa [Ne, h.queue]
  · rw [phase_onRejected]
    split
    · nofun
    · rename_i other
      split
      · nofun
      · exact fun there => other (h.unique q r there asks)

theorem coherent_step {s t : Client τ} {e : Event τ} (h : s.Coherent) (token : s.HasToken e)
    (next : s.step e = some t) : t.Coherent := by
  cases e with
  | send r =>
    obtain ⟨idle, sent⟩ := Option.ite_none_right_eq_some.mp next
    cases sent
    have same : (s.sendAll [r]).phase = (s.setPhase r .sent).phase := by
      funext q
      simp [sendAll, setPhase]
    have moved : (s.setPhase r .sent).Coherent := h.setPhase (by simp [idle]) (by simp)
    exact moved.of_phase (by simp [same]) (by simp [same]) rfl rfl
  | answered r ok =>
    obtain ⟨sent, settled⟩ := Option.ite_none_right_eq_some.mp next
    cases settled
    exact h.setPhase (by simp [sent]) (by simp)
  | unauthorized r =>
    obtain ⟨sent, given⟩ := Option.ite_none_right_eq_some.mp next
    cases given
    exact coherent_onUnauthorized h sent token
  | refreshed r a b =>
    obtain ⟨asks, given⟩ := Option.ite_none_right_eq_some.mp next
    cases given
    exact coherent_onRefreshed h asks a b
  | refreshRejected r =>
    obtain ⟨asks, given⟩ := Option.ite_none_right_eq_some.mp next
    cases given
    exact coherent_onRejected h asks
  | setTokens a b =>
    cases next
    exact h.of_phase (fun _ => .rfl) (fun _ => .rfl) rfl rfl
  | clearTokens =>
    cases next
    exact h.of_phase (fun _ => .rfl) (fun _ => .rfl) rfl rfl

theorem coherent_of_run {s : Client τ} (run : Reaches step HasToken initial s) : s.Coherent :=
  run.invariant (P := Coherent) (fun _ _ _ h token next => coherent_step h token next)
    coherent_initial

/-- The requests that wait go out again with the new token. -/
theorem step_refreshed {s : Client τ} {q : Nat} (asks : s.phase q = .refreshing) (a b : τ) :
    ∃ t, s.step (.refreshed q a b) = some t ∧ ∀ r ∈ q :: s.failedQueue,
      t.phase r = .sent ∧ t.authorization r = some a := by
  refine ⟨_, if_pos asks, fun r mem => ⟨?_, ?_⟩⟩
  · rw [phase_onRefreshed, if_pos mem]
  · exact if_pos mem

/-- The requests that wait fail with the refresh. -/
theorem step_refreshRejected {s : Client τ} {q : Nat} (asks : s.phase q = .refreshing) :
    ∃ t, s.step (.refreshRejected q) = some t ∧ t.phase q = .settled .refreshFailed ∧
      ∀ r ∈ s.failedQueue, r ≠ q → t.phase r = .settled .refreshError := by
  refine ⟨_, if_pos asks, ?_, fun r mem other => ?_⟩
  · rw [phase_onRejected, if_pos rfl]
  · rw [phase_onRejected, if_neg other, if_pos mem]

theorem phase_onUnauthorized_of_ne (s : Client τ) {r q : Nat} (other : q ≠ r) :
    (s.onUnauthorized r).phase q = s.phase q := by
  rw [onUnauthorized]
  split
  · exact if_neg other
  · split
    · exact if_neg other
    · dsimp only
      split <;> exact if_neg other

/-- What happens to one request leaves the others alone. -/
theorem phase_step_of_sent {s t : Client τ} {e : Event τ} (next : s.step e = some t)
    (free : ∀ q, s.phase q = .refreshing → (∀ a b, e ≠ .refreshed q a b) ∧ e ≠ .refreshRejected q)
    {r : Nat} (still : s.phase r ≠ .idle ∧ s.phase r ≠ .sent) : t.phase r = s.phase r := by
  cases e with
  | send r' =>
    obtain ⟨idle, given⟩ := Option.ite_none_right_eq_some.mp next
    cases given
    have other : r ∉ [r'] := by
      rw [List.mem_singleton]
      rintro rfl
      exact still.1 idle
    exact if_neg other
  | answered r' ok =>
    obtain ⟨sent, given⟩ := Option.ite_none_right_eq_some.mp next
    cases given
    exact if_neg fun same : r = r' => still.2 (same ▸ sent)
  | unauthorized r' =>
    obtain ⟨sent, given⟩ := Option.ite_none_right_eq_some.mp next
    cases given
    exact phase_onUnauthorized_of_ne s fun same : r = r' => still.2 (same ▸ sent)
  | refreshed q a b =>
    exact absurd rfl ((free q (Option.ite_none_right_eq_some.mp next).1).1 a b)
  | refreshRejected q => exact absurd rfl (free q (Option.ite_none_right_eq_some.mp next).1).2
  | setTokens | clearTokens =>
    cases next
    rfl

/-- A request waits until the refresh is answered. -/
theorem queued_until {s t : Client τ} {e : Event τ} {r : Nat} (waits : s.phase r = .queued)
    (next : s.step e = some t) (gone : t.phase r ≠ .queued) :
    ∃ q, s.phase q = .refreshing ∧ ((∃ a b, e = .refreshed q a b) ∨ e = .refreshRejected q) := by
  by_contra none
  push Not at none
  refine gone ((phase_step_of_sent next (fun q asks => ?_) (by simp [waits])).trans waits)
  exact ⟨fun a b same => (none q asks).1 a b same, (none q asks).2⟩

/-- **Nobody waits in vain**: in every run in which each refresh has a token to begin with, at most
one refresh is under way, a request that waits does so for it alone, and goes out again with the new
token or fails with the refresh when it is answered. -/
theorem queued_settled {s : Client τ} (run : Reaches step HasToken initial s) {r : Nat}
    (waits : s.phase r = .queued) :
    ∃ q, (∀ q', s.phase q' = .refreshing ↔ q' = q) ∧
      (∀ e t, s.step e = some t → t.phase r ≠ .queued →
        (∃ a b, e = .refreshed q a b) ∨ e = .refreshRejected q) ∧
      (∀ a b, ∃ t, s.step (.refreshed q a b) = some t ∧ t.phase r = .sent ∧
        t.authorization r = some a) ∧
      ∃ t, s.step (.refreshRejected q) = some t ∧ t.phase r = .settled .refreshError := by
  have h := coherent_of_run run
  have mem := (h.queue r).mp waits
  have asking : s.isRefreshing = true := by
    by_contra quiet
    rw [h.quiet (by simpa using quiet)] at mem
    cases mem
  obtain ⟨q, asks⟩ := h.asking.mp asking
  have only : ∀ q', s.phase q' = .refreshing ↔ q' = q :=
    fun q' => ⟨fun there => h.unique q' q there asks, fun same => same ▸ asks⟩
  refine ⟨q, only, ?_, ?_, ?_⟩
  · intro e t next gone
    obtain ⟨q', asks', answered⟩ := queued_until waits next gone
    obtain rfl := (only q').mp asks'
    exact answered
  · intro a b
    obtain ⟨t, next, all⟩ := step_refreshed asks a b
    exact ⟨t, next, all r (List.mem_cons_of_mem q mem)⟩
  · obtain ⟨t, next, -, all⟩ := step_refreshRejected asks
    refine ⟨t, next, all r mem ?_⟩
    rintro rfl
    rw [waits] at asks
    cases asks

/-- Two requests are answered with 401, and the second one waits for the first. -/
theorem queued_settled_two :
    ∃ s : Client Nat, s.phase 1 = .queued ∧ ∃ q, (∀ q', s.phase q' = .refreshing ↔ q' = q) ∧
      (∀ e t, s.step e = some t → t.phase 1 ≠ .queued →
        (∃ a b, e = .refreshed q a b) ∨ e = .refreshRejected q) ∧
      (∀ a b, ∃ t, s.step (.refreshed q a b) = some t ∧ t.phase 1 = .sent ∧
        t.authorization 1 = some a) ∧
      ∃ t, s.step (.refreshRejected q) = some t ∧ t.phase 1 = .settled .refreshError := by
  obtain ⟨s, run, waits⟩ := exists_reaches_of_runAll step HasToken (initial : Client Nat)
    [.setTokens 3 4, .send 0, .send 1, .unauthorized 0, .unauthorized 1]
    (fun s => s.phase 1 = .queued) (by decide)
  exact ⟨s, waits, queued_settled run waits⟩

/-! ## A refresh without a token -/

/-- A refresh is taken to be under way, and nobody has asked for it. -/
structure Stuck (s : Client τ) : Prop where
  flag : s.isRefreshing = true
  nobody : ∀ r, s.phase r ≠ .refreshing

theorem stuck_step {s t : Client τ} {e : Event τ} (h : s.Stuck) (next : s.step e = some t) :
    t.Stuck := by
  cases e with
  | send r =>
    cases (Option.ite_none_right_eq_some.mp next).2
    refine ⟨h.flag, fun q => ?_⟩
    change (if q ∈ [r] then .sent else s.phase q) ≠ .refreshing
    split
    · nofun
    · exact h.nobody q
  | answered r ok =>
    cases (Option.ite_none_right_eq_some.mp next).2
    refine ⟨h.flag, fun q => ?_⟩
    rw [phase_setPhase]
    split
    · nofun
    · exact h.nobody q
  | unauthorized r =>
    cases (Option.ite_none_right_eq_some.mp next).2
    rw [onUnauthorized, if_pos h.flag]
    split
    all_goals
      refine ⟨h.flag, fun q => ?_⟩
      change (if q = r then _ else s.phase q) ≠ .refreshing
      split
      · nofun
      · exact h.nobody q
  | refreshed q a b => exact absurd (Option.ite_none_right_eq_some.mp next).1 (h.nobody q)
  | refreshRejected q => exact absurd (Option.ite_none_right_eq_some.mp next).1 (h.nobody q)
  | setTokens | clearTokens =>
    cases next
    exact ⟨h.flag, h.nobody⟩

theorem Stuck.of_run {s t : Client τ} (h : s.Stuck) (run : Reaches step always s t) : t.Stuck :=
  run.invariant (P := Stuck) (fun _ _ _ h _ next => stuck_step h next) h

/-- Who waits then, waits for ever. -/
theorem Stuck.queued {s t : Client τ} (h : s.Stuck) {r : Nat} (waits : s.phase r = .queued)
    (run : Reaches step always s t) : t.phase r = .queued := by
  have both : t.Stuck ∧ t.phase r = .queued := by
    refine run.invariant (P := fun s => s.Stuck ∧ s.phase r = .queued) ?_ ⟨h, waits⟩
    rintro s e t ⟨h, waits⟩ - next
    refine ⟨stuck_step h next, ?_⟩
    by_contra gone
    obtain ⟨q, asks, -⟩ := queued_until waits next gone
    exact h.nobody q asks
  exact both.2

/-- **A refresh without a token is never over**: when a request is answered with 401 while there is
no token for a refresh, every request that is answered so for the first time afterwards waits for
ever, even when the user has logged in again. -/
theorem stuck_of_no_token {s t u : Client τ} (run : Reaches step HasToken initial s) {r : Nat}
    (quiet : s.isRefreshing = false) (retry : s.retry r = false) (token : s.refreshToken = none)
    (lost : s.step (.unauthorized r) = some t) (later : Reaches step always t u) {q : Nat}
    {v : Client τ} (first : u.retry q = false) (next : u.step (.unauthorized q) = some v) :
    ∀ w, Reaches step always v w → w.phase q = .queued := by
  have h := coherent_of_run run
  have stuck : t.Stuck := by
    cases (Option.ite_none_right_eq_some.mp lost).2
    rw [onUnauthorized, if_neg (by simp [retry]), if_neg (by simp [quiet])]
    simp only [token]
    refine ⟨rfl, fun q => ?_⟩
    rw [phase_setPhase]
    split
    · nofun
    · intro asks
      have asking := h.asking.mpr ⟨q, asks⟩
      rw [quiet] at asking
      cases asking
  have still := stuck.of_run later
  have waits : v.phase q = .queued := by
    cases (Option.ite_none_right_eq_some.mp next).2
    rw [onUnauthorized, if_neg (by simp [first]), if_pos still.flag]
    exact if_pos rfl
  exact fun w run' => (stuck_step still next).queued waits run'

/-- The user logs in again before the second request is answered. -/
theorem stuck_of_no_token_login :
    let s : Client Nat := ((initial : Client Nat).sendAll [0]).sendAll [1]
    let u : Client Nat := { s.onUnauthorized 0 with accessToken := some 3, refreshToken := some 4 }
    ∀ w, Reaches step always (u.onUnauthorized 1) w → w.phase 1 = .queued := by
  intro s
  have sent : runAll step HasToken (initial : Client Nat) [.send 0, .send 1] = some s := rfl
  have answered : s.step (.unauthorized 0) = some (s.onUnauthorized 0) := rfl
  exact stuck_of_no_token (reaches_of_runAll sent) rfl rfl rfl answered
    (.single ⟨.setTokens 3 4, trivial, rfl⟩) rfl rfl

end Client

end GigaPdf.TokenRefresh
