import GigaPdf.Lib.Attempts
import Mathlib.Data.List.Basic

/-!
# Resources

Handles that are acquired, used and released along an attempt, and the trace that says so. A session
uses one handle; whether all is released at the end is told from the bodies of the sessions.
-/

namespace Resources

open Attempts

inductive Event
  | acquire (handle : Nat)
  | use (handle : Nat)
  | release (handle : Nat)
deriving DecidableEq

def Event.handle : Event → Nat
  | acquire handle | use handle | release handle => handle

/-- Every handle that is acquired is released once, and not used after that. -/
structure Balanced (trace : List Event) : Prop where
  once : ∀ h, .acquire h ∈ trace → trace.count (.release h) = 1
  live : trace.Pairwise fun e e' => ∀ h, e = .release h → e' ≠ .use h

/-- `issued` counts the handles, `closed` are those that `closeOnce` has released. -/
structure Ledger (ω : Type) where
  inner : ω
  trace : List Event
  issued : Nat
  closed : List Nat

def Ledger.start {ω : Type} (inner : ω) : Ledger ω := ⟨inner, [], 0, []⟩

section
variable {ω ε α β : Type}

/-! ## Steps on a handle -/

/-- A resource that cannot be opened has no handle. -/
def acquire (f : Nat → ω → Except ε Unit × ω) : Attempt (Ledger ω) ε Nat :=
  step fun s =>
    match f s.issued s.inner with
    | (.ok _, w) =>
      (.ok s.issued,
        { s with inner := w, trace := s.trace ++ [.acquire s.issued], issued := s.issued + 1 })
    | (.error e, w) => (.error e, { s with inner := w })

def use (h : Nat) (f : ω → Except ε α × ω) : Attempt (Ledger ω) ε α :=
  step fun s =>
    ((f s.inner).1, { s with inner := (f s.inner).2, trace := s.trace ++ [.use h] })

/-- A use that changes nothing. -/
def read (h : Nat) (f : ω → Except ε α) : Attempt (Ledger ω) ε α := use h fun w => (f w, w)

@[simp] theorem outcome_read (h : Nat) (f : ω → Except ε α) (s : Ledger ω) :
    outcome (read h f) s = (f s.inner, { s with trace := s.trace ++ [.use h] }) := rfl

def release (h : Nat) (f : ω → Except ε Unit × ω) : Attempt (Ledger ω) ε Unit :=
  step fun s =>
    ((f s.inner).1, { s with inner := (f s.inner).2, trace := s.trace ++ [.release h] })

/-- To close again does nothing. -/
def closeOnce (h : Nat) (f : ω → Except ε Unit × ω) : Attempt (Ledger ω) ε Unit :=
  step fun s =>
    if h ∈ s.closed then (.ok (), s)
    else
      ((f s.inner).1,
        { s with
          inner := (f s.inner).2
          trace := s.trace ++ [.release h]
          closed := h :: s.closed })

/-- A handle for a body that says at its end that it is closed. -/
def session (opening : Attempt (Ledger ω) ε Nat) (close : Nat → ω → Except ε Unit × ω)
    (body : Nat → Attempt (Ledger ω) ε α) : Attempt (Ledger ω) ε α := do
  let h ← opening
  let a ← body h
  closeOnce h (close h)
  pure a

/-- A handle for a body that is closed in a `finally`. -/
def guarded (opening : Attempt (Ledger ω) ε Nat) (close : Nat → ω → Except ε Unit × ω)
    (body : Nat → Attempt (Ledger ω) ε α) : Attempt (Ledger ω) ε α := do
  let h ← opening
  let result ← caught (body h)
  release h (close h)
  step fun s => (result, s)

/-! ## What a body does to the ledger -/

/-- Only the handle is used. -/
structure Uses (h : Nat) (s t : Ledger ω) : Prop where
  trace : ∃ n, t.trace = s.trace ++ List.replicate n (.use h)
  issued : t.issued = s.issued
  closed : t.closed = s.closed

instance (h : Nat) : Std.Refl (Uses (ω := ω) h) :=
  ⟨fun s => ⟨⟨0, (List.append_nil s.trace).symm⟩, rfl, rfl⟩⟩

instance (h : Nat) : IsTrans (Ledger ω) (Uses h) where
  trans s t u first next := by
    obtain ⟨⟨n, traced⟩, issued, closed⟩ := first
    obtain ⟨⟨m, traced'⟩, issued', closed'⟩ := next
    refine ⟨⟨n + m, ?_⟩, issued'.trans issued, closed'.trans closed⟩
    rw [traced', traced, List.append_assoc, List.replicate_append_replicate]

theorem follows_use (h : Nat) (f : ω → Except ε α × ω) : Follows (Uses h) (use h f) :=
  follows_step fun _ => ⟨⟨1, rfl⟩, rfl, rfl⟩

theorem follows_read (h : Nat) (f : ω → Except ε α) : Follows (Uses h) (read h f) :=
  follows_use h fun w => (f w, w)

/-- Apart from the trace, the ledger only has an effect on what is returned or raised. -/
def Reads (x : Attempt (Ledger ω) ε α) : Prop :=
  ∃ f : ω → Except ε α, ∀ s, (outcome x s).1 = f s.inner ∧ (outcome x s).2.inner = s.inner

theorem reads_pure (a : α) : Reads (pure a : Attempt (Ledger ω) ε α) :=
  ⟨fun _ => .ok a, fun _ => ⟨rfl, rfl⟩⟩

theorem reads_throw (e : ε) : Reads (throw e : Attempt (Ledger ω) ε α) :=
  ⟨fun _ => .error e, fun _ => ⟨rfl, rfl⟩⟩

theorem reads_read (h : Nat) (f : ω → Except ε α) : Reads (read h f) :=
  ⟨f, fun _ => ⟨rfl, rfl⟩⟩

theorem Reads.bind {x : Attempt (Ledger ω) ε α} {f : α → Attempt (Ledger ω) ε β}
    (first : Reads x) (next : ∀ a, Reads (f a)) : Reads (x >>= f) := by
  obtain ⟨g, first⟩ := first
  choose k next using next
  refine ⟨fun w => match g w with | .ok a => k a w | .error e => .error e, fun s => ?_⟩
  obtain ⟨result, kept⟩ := first s
  rw [outcome_bind]
  generalize outcome x s = out at result kept
  obtain ⟨e | a, t⟩ := out
  · simp only at result kept
    simp only [← result]
    exact ⟨trivial, kept⟩
  · obtain ⟨result', kept'⟩ := next a t
    simp only at result kept
    simp only [← result]
    exact ⟨by rw [result', kept], kept'.trans kept⟩

/-- The handle is used, and only to read. -/
structure Inspects (h : Nat) (x : Attempt (Ledger ω) ε α) : Prop where
  uses : Follows (Uses h) x
  reads : Reads x

theorem inspects_pure (h : Nat) (a : α) : Inspects h (pure a : Attempt (Ledger ω) ε α) :=
  ⟨follows_pure a, reads_pure a⟩

theorem inspects_throw (h : Nat) (e : ε) : Inspects h (throw e : Attempt (Ledger ω) ε α) :=
  ⟨follows_throw e, reads_throw e⟩

theorem inspects_read (h : Nat) (f : ω → Except ε α) : Inspects h (read h f) :=
  ⟨follows_read h f, reads_read h f⟩

theorem Inspects.bind {h : Nat} {x : Attempt (Ledger ω) ε α} {f : α → Attempt (Ledger ω) ε β}
    (first : Inspects h x) (next : ∀ a, Inspects h (f a)) : Inspects h (x >>= f) :=
  ⟨first.uses.bind fun a => (next a).uses, first.reads.bind fun a => (next a).reads⟩

/-- Rounds that only read all start from the same. -/
theorem returns_mapM_iff_of_reads {f : α → Attempt (Ledger ω) ε β} (reads : ∀ a, Reads (f a))
    {l : List α} {s : Ledger ω} : Returns (l.mapM f) s ↔ ∀ a ∈ l, Returns (f a) s := by
  refine returns_mapM_iff_forall (R := fun s t => t.inner = s.inner) (fun a s => ?_) ?_
  · obtain ⟨g, here⟩ := reads a
    exact (here s).2
  · intro a s t same
    obtain ⟨g, here⟩ := reads a
    rw [Returns, Returns, (here s).1, (here t).1, same]

/-- The next handle is issued, or nothing has come of it. -/
def Opens (opening : Attempt (Ledger ω) ε Nat) : Prop :=
  ∀ s, match outcome opening s with
    | (.ok h, t) => h = s.issued ∧ t.trace = s.trace ++ [.acquire h] ∧ t.issued = h + 1 ∧
        t.closed = s.closed
    | (.error _, t) => t.trace = s.trace ∧ t.issued = s.issued ∧ t.closed = s.closed

theorem opens_acquire (f : Nat → ω → Except ε Unit × ω) : Opens (acquire f) := by
  intro s
  rw [acquire, outcome_step]
  obtain ⟨result, w⟩ := f s.issued s.inner
  cases result with
  | ok => exact ⟨rfl, rfl, rfl, rfl⟩
  | error => exact ⟨rfl, rfl, rfl⟩

/-- An error may be told in other words. -/
theorem Opens.reworded {opening : Attempt (Ledger ω) ε Nat} (opens : Opens opening)
    (words : ε → ε) : Opens (tryCatch opening fun e => throw (words e)) := by
  intro s
  have here := opens s
  rw [outcome_tryCatch]
  generalize outcome opening s = ran at here ⊢
  obtain ⟨result, t⟩ := ran
  cases result with
  | ok => exact here
  | error => exact here

/-! ## What is released -/

/-- The handles of the ledger are among those that were issued. -/
structure Formed (s : Ledger ω) : Prop where
  trace : ∀ e ∈ s.trace, e.handle < s.issued
  closed : ∀ h ∈ s.closed, h < s.issued

theorem formed_start (inner : ω) : Formed (Ledger.start inner) where
  trace _ mem := absurd mem List.not_mem_nil
  closed _ mem := absurd mem List.not_mem_nil

theorem balanced_nil : Balanced [] where
  once _ mem := absurd mem List.not_mem_nil
  live := .nil

theorem count_release_fresh {trace : List Event} {h : Nat}
    (fresh : ∀ e ∈ trace, e.handle < h) : trace.count (.release h) = 0 :=
  List.count_eq_zero_of_not_mem fun mem => Nat.lt_irrefl h (fresh _ mem)

/-- The trace of a session that has got to its end. -/
theorem Balanced.session {trace : List Event} {h : Nat} (balanced : Balanced trace)
    (fresh : ∀ e ∈ trace, e.handle < h) (n : Nat) :
    Balanced (trace ++ [.acquire h] ++ List.replicate n (.use h) ++ [.release h]) where
  once g mem := by
    have released : (trace ++ [Event.acquire h] ++ List.replicate n (Event.use h) ++
        [Event.release h]).count (Event.release g) =
        trace.count (Event.release g) + if h = g then 1 else 0 := by
      simp [List.count_append, List.count_replicate, List.count_singleton]
    rw [released]
    by_cases here : h = g
    · subst here
      rw [count_release_fresh fresh, if_pos rfl]
    · have old : .acquire g ∈ trace := by
        simp only [List.mem_append, List.mem_singleton, List.mem_replicate, Event.acquire.injEq,
          reduceCtorEq, and_false, or_false] at mem
        exact mem.resolve_right fun same => here same.symm
      rw [balanced.once g old, if_neg here]
  live := by
    have used : ∀ e ∈ List.replicate n (Event.use h), e = .use h :=
      fun e mem => List.eq_of_mem_replicate mem
    refine List.pairwise_append.mpr ⟨List.pairwise_append.mpr ⟨List.pairwise_append.mpr
      ⟨balanced.live, List.pairwise_singleton .., ?_⟩, ?_, ?_⟩, List.pairwise_singleton .., ?_⟩
    · intro e _ e' mem g _
      rw [List.mem_singleton.mp mem]
      simp
    · refine List.pairwise_of_forall_mem_list fun e mem e' _ g same => ?_
      rw [used e mem] at same
      cases same
    · rintro e mem e' mem' g rfl
      rw [used e' mem']
      obtain old | last := List.mem_append.mp mem
      · -- what was released before is an older handle
        have less := fresh _ old
        simp only [Event.handle] at less
        simp only [ne_eq, Event.use.injEq]
        omega
      · cases List.mem_singleton.mp last
    · intro e _ e' mem g _
      rw [List.mem_singleton.mp mem]
      simp

/-- The trace of a session that was left in its body. -/
theorem not_balanced_left {trace : List Event} {h : Nat} (fresh : ∀ e ∈ trace, e.handle < h)
    (n : Nat) : ¬Balanced (trace ++ [.acquire h] ++ List.replicate n (.use h)) := by
  intro balanced
  have once := balanced.once h (by simp)
  simp [List.count_append, List.count_replicate, count_release_fresh fresh] at once

/-! ## Where all is released -/

/-- On a ledger on which all is released, the attempt releases what it acquires just where `P`
holds. -/
structure ReleasesAt (x : Attempt (Ledger ω) ε α) (P : Prop) (s : Ledger ω) : Prop where
  formed : Formed (outcome x s).2
  balanced_iff : Balanced (outcome x s).2.trace ↔ P
  returned : Returns x s → P

def Releases (x : Attempt (Ledger ω) ε α) (P : Ledger ω → Prop) : Prop :=
  ∀ s, Formed s → Balanced s.trace → ReleasesAt x (P s) s

theorem Releases.congr {x : Attempt (Ledger ω) ε α} {P Q : Ledger ω → Prop}
    (releases : Releases x P) (same : ∀ s, P s ↔ Q s) : Releases x Q := by
  intro s formed balanced
  have here := releases s formed balanced
  exact ⟨here.formed, here.balanced_iff.trans (same s), fun ok => (same s).mp (here.returned ok)⟩

theorem releases_pure (a : α) :
    Releases (pure a : Attempt (Ledger ω) ε α) fun _ => True :=
  fun _ formed balanced => ⟨formed, iff_of_true balanced trivial, fun _ => trivial⟩

theorem Releases.bind {x : Attempt (Ledger ω) ε α} {f : α → Attempt (Ledger ω) ε β}
    {P : Ledger ω → Prop} {Q : α → Ledger ω → Prop} (first : Releases x P)
    (next : ∀ a, Releases (f a) (Q a)) :
    Releases (x >>= f) fun s => P s ∧ ∀ a t, outcome x s = (.ok a, t) → Q a t := by
  intro s formed balanced
  obtain ⟨formed', balanced', returned⟩ := first s formed balanced
  rw [Returns] at returned
  obtain ⟨out, ran⟩ : ∃ out, outcome x s = out := ⟨_, rfl⟩
  have bound := outcome_bind x f s
  obtain ⟨e | a, t⟩ := out
  · rw [ran] at formed' balanced' returned bound
    have both : (P s ∧ ∀ a t, outcome x s = (.ok a, t) → Q a t) ↔ P s :=
      and_iff_left fun a t ok => by simp [ran] at ok
    refine ⟨by rwa [bound], ?_, ?_⟩
    · rw [bound]
      exact balanced'.trans both.symm
    · rintro ⟨b, ok⟩
      rw [bound] at ok
      cases ok
  · rw [ran] at formed' balanced' returned bound
    have holds := returned ⟨a, rfl⟩
    obtain ⟨formed'', balanced'', returned'⟩ := next a t formed' (balanced'.mpr holds)
    have both : (P s ∧ ∀ a t, outcome x s = (.ok a, t) → Q a t) ↔ Q a t :=
      (and_iff_right holds).trans (forall_outcome_iff ran)
    refine ⟨by rwa [bound], ?_, fun ok => both.mpr (returned' ?_)⟩
    · rw [bound]
      exact balanced''.trans both.symm
    · rwa [Returns, bound] at ok

/-- Where the attempt always releases what it acquires, so it does when its error is caught. -/
theorem Releases.caught {x : Attempt (Ledger ω) ε α} (releases : Releases x fun _ => True) :
    Releases (caught x) fun _ => True := by
  intro s formed balanced
  have here := releases s formed balanced
  exact ⟨here.formed, here.balanced_iff, fun _ => trivial⟩

/-- The next handle has been acquired and used. -/
structure Visited (h : Nat) (s t : Ledger ω) : Prop where
  handle : h = s.issued
  trace : ∃ n, t.trace = s.trace ++ [.acquire h] ++ List.replicate n (.use h)
  issued : t.issued = s.issued + 1
  closed : t.closed = s.closed

namespace Visited

variable {h : Nat} {s t u : Ledger ω}

theorem formed (visited : Visited h s t) (formed : Formed s) : Formed t where
  trace e mem := by
    obtain ⟨rfl, ⟨n, traced⟩, issued, -⟩ := visited
    rw [traced, List.append_assoc] at mem
    obtain old | new := List.mem_append.mp mem
    · have less := formed.trace e old
      omega
    · have own : e.handle = s.issued := by
        obtain first | used := List.mem_append.mp new
        · rw [List.mem_singleton.mp first]
          rfl
        · rw [List.eq_of_mem_replicate used]
          rfl
      omega
  closed g mem := by
    have less := formed.closed g (visited.closed ▸ mem)
    have issued := visited.issued
    omega

/-- Left in the middle, the handle is not released. -/
theorem not_balanced (visited : Visited h s t) (formed : Formed s) : ¬Balanced t.trace := by
  obtain ⟨rfl, ⟨n, traced⟩, -, -⟩ := visited
  rw [traced]
  exact not_balanced_left formed.trace n

theorem released (visited : Visited h s t) (formed : Formed s) (balanced : Balanced s.trace)
    (trace : u.trace = t.trace ++ [.release h]) (issued : u.issued = t.issued)
    (closed : ∀ g ∈ u.closed, g = h ∨ g ∈ t.closed) : Formed u ∧ Balanced u.trace := by
  have formed' := visited.formed formed
  obtain ⟨rfl, ⟨n, traced⟩, issued', -⟩ := visited
  refine ⟨⟨fun e mem => ?_, fun g mem => ?_⟩, ?_⟩
  · rw [trace] at mem
    obtain old | new := List.mem_append.mp mem
    · exact issued ▸ formed'.trace e old
    · rw [List.mem_singleton.mp new, issued, issued']
      exact Nat.lt_succ_self _
  · obtain rfl | old := closed g mem
    · omega
    · exact issued ▸ formed'.closed g old
  · rw [trace, traced]
    exact balanced.session formed.trace n

end Visited

section
variable {opening : Attempt (Ledger ω) ε Nat} {close : Nat → ω → Except ε Unit × ω}
  {body : Nat → Attempt (Ledger ω) ε α}

theorem visited_body (opens : Opens opening) (uses : ∀ h, Follows (Uses h) (body h))
    {s t : Ledger ω} {h : Nat} (opened : outcome opening s = (.ok h, t)) :
    Visited h s (outcome (body h) t).2 := by
  have start := opens s
  rw [opened] at start
  obtain ⟨rfl, traced, issued, closed⟩ := start
  obtain ⟨⟨n, traced'⟩, issued', closed'⟩ := uses s.issued t
  exact ⟨rfl, ⟨n, by rw [traced', traced]⟩, issued'.trans issued, closed'.trans closed⟩

/-- Nothing has come of a document that cannot be opened. -/
theorem opens_error (opens : Opens opening) {s t : Ledger ω} {e : ε}
    (failed : outcome opening s = (.error e, t)) (formed : Formed s) (balanced : Balanced s.trace) :
    Formed t ∧ Balanced t.trace := by
  have here := opens s
  rw [failed] at here
  obtain ⟨traced, issued, closed⟩ := here
  refine ⟨⟨?_, ?_⟩, traced ▸ balanced⟩
  · rw [traced, issued]
    exact formed.trace
  · rw [closed, issued]
    exact formed.closed

theorem state_closeOnce {h : Nat} (f : ω → Except ε Unit × ω) {s : Ledger ω}
    (open' : h ∉ s.closed) :
    (outcome (closeOnce h f) s).2 =
      { s with
        inner := (f s.inner).2
        trace := s.trace ++ [.release h]
        closed := h :: s.closed } := by
  rw [closeOnce, outcome_step, if_neg open']

/-- A session releases its handle just where its body returns. -/
theorem releases_session (opens : Opens opening) (uses : ∀ h, Follows (Uses h) (body h)) :
    Releases (session opening close body) fun s =>
      ∀ h t, outcome opening s = (.ok h, t) → Returns (body h) t := by
  intro s formed balanced
  obtain ⟨out, opened⟩ : ∃ out, outcome opening s = out := ⟨_, rfl⟩
  have bound := outcome_bind opening (fun h => body h >>= fun a => closeOnce h (close h) >>=
    fun _ => pure a) s
  rw [opened] at bound
  obtain ⟨e | h, t⟩ := out
  · obtain ⟨formed', balanced'⟩ := opens_error opens opened formed balanced
    have holds : ∀ h t, outcome opening s = (.ok h, t) → Returns (body h) t :=
      fun h t ok => by simp [opened] at ok
    exact ⟨by rwa [session, bound], iff_of_true (by rwa [session, bound]) holds, fun _ => holds⟩
  · have visited := visited_body opens uses opened
    have within : (∀ h t, outcome opening s = (.ok h, t) → Returns (body h) t) ↔
        Returns (body h) t := forall_outcome_iff opened
    have bound' := outcome_bind (body h) (fun a => closeOnce h (close h) >>= fun _ => pure a) t
    obtain ⟨out, ran⟩ : ∃ out, outcome (body h) t = out := ⟨_, rfl⟩
    rw [ran] at visited bound'
    have result : outcome (session opening close body) s = _ := bound.trans bound'
    obtain ⟨e | a, u⟩ := out
    · -- the body raises, and the handle stays open
      have raised : ¬Returns (body h) t := fun ⟨b, ok⟩ => by simp [ran] at ok
      have left := visited.not_balanced formed
      refine ⟨?_, ?_, ?_⟩
      · rw [result]
        exact visited.formed formed
      · rw [result]
        exact iff_of_false left (within.not.mpr raised)
      · rintro ⟨b, ok⟩
        rw [result] at ok
        cases ok
    · have returned := within.mpr ⟨a, by rw [ran]⟩
      have fresh : h ∉ u.closed := fun mem => by
        have less := formed.closed h (visited.closed ▸ mem)
        exact Nat.lt_irrefl _ (visited.handle ▸ less)
      have closing := (state_bind_pure (closeOnce h (close h)) (fun _ => a) u).trans
        (state_closeOnce (close h) fresh)
      rw [← congrArg Prod.snd result] at closing
      have released := visited.released
        (u := { u with
          inner := (close h u.inner).2
          trace := u.trace ++ [.release h]
          closed := h :: u.closed })
        formed balanced rfl rfl fun g mem => List.mem_cons.mp mem
      rw [← closing] at released
      exact ⟨released.1, iff_of_true released.2 returned, fun _ => returned⟩

/-- A handle that is closed in a `finally` is released. -/
theorem releases_guarded (opens : Opens opening) (uses : ∀ h, Follows (Uses h) (body h)) :
    Releases (guarded opening close body) fun _ => True := by
  intro s formed balanced
  obtain ⟨out, opened⟩ : ∃ out, outcome opening s = out := ⟨_, rfl⟩
  suffices both : Formed (outcome (guarded opening close body) s).2 ∧
      Balanced (outcome (guarded opening close body) s).2.trace from
    ⟨both.1, iff_of_true both.2 trivial, fun _ => trivial⟩
  have bound := outcome_bind opening (fun h => caught (body h) >>= fun result =>
    release h (close h) >>= fun _ => step fun s => (result, s)) s
  rw [opened] at bound
  rw [guarded, bound]
  obtain ⟨e | h, t⟩ := out
  · exact opens_error opens opened formed balanced
  · have visited := visited_body opens uses opened
    simp only
    rw [outcome_bind, outcome_caught]
    simp only
    rw [outcome_bind, release, outcome_step]
    generalize (outcome (body h) t).2 = u at visited ⊢
    have released := visited.released
      (u := { u with inner := (close h u.inner).2, trace := u.trace ++ [.release h] })
      formed balanced rfl rfl fun g mem => .inr mem
    cases (close h u.inner).1 with
    | error => exact released
    | ok => exact released

end

end

end Resources
