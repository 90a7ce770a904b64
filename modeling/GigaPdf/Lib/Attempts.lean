import Mathlib.Order.Defs.Unbundled

/-!
# Attempts

Computations on a state that return or raise. What was done to the state before a raise stays done,
whether the raise is caught or not.
-/

namespace Attempts

abbrev Attempt (σ ε : Type) := ExceptT ε (StateM σ)

variable {σ ε α β : Type}

/-- A step on the state that returns or raises. -/
def step (f : σ → Except ε α × σ) : Attempt σ ε α := ExceptT.mk (StateT.mk f)

/-- What an attempt returns or raises, and the state that it leaves. -/
def outcome (x : Attempt σ ε α) (s : σ) : Except ε α × σ := x.run.run s

@[simp] theorem outcome_step (f : σ → Except ε α × σ) (s : σ) : outcome (step f) s = f s := rfl

@[simp] theorem outcome_pure (a : α) (s : σ) :
    outcome (pure a : Attempt σ ε α) s = (.ok a, s) := rfl

@[simp] theorem outcome_throw (e : ε) (s : σ) :
    outcome (throw e : Attempt σ ε α) s = (.error e, s) := rfl

@[simp] theorem outcome_modify (f : σ → σ) (s : σ) :
    outcome (modify f : Attempt σ ε PUnit) s = (.ok ⟨⟩, f s) := rfl

theorem outcome_bind (x : Attempt σ ε α) (f : α → Attempt σ ε β) (s : σ) :
    outcome (x >>= f) s =
      match outcome x s with
      | (.ok a, t) => outcome (f a) t
      | (.error e, t) => (.error e, t) := by
  rw [outcome, ExceptT.run_bind, StateT.run_bind, ← outcome]
  obtain ⟨result, t⟩ := outcome x s
  cases result <;> rfl

/-- What is done with the result at the end leaves the state as it is. -/
theorem state_bind_pure (x : Attempt σ ε α) (f : α → β) (s : σ) :
    (outcome (x >>= fun a => pure (f a)) s).2 = (outcome x s).2 := by
  rw [outcome_bind]
  obtain ⟨result, t⟩ := outcome x s
  cases result <;> rfl

theorem outcome_tryCatch (x : Attempt σ ε α) (handler : ε → Attempt σ ε α) (s : σ) :
    outcome (tryCatch x handler) s =
      match outcome x s with
      | (.ok a, t) => (.ok a, t)
      | (.error e, t) => outcome (handler e) t := by
  rw [outcome, ExceptT.run_tryCatch, StateT.run_bind, ← outcome]
  obtain ⟨result, t⟩ := outcome x s
  cases result <;> rfl

/-- To swallow a raise keeps what was done before it. -/
theorem state_tryCatch_pure (x : Attempt σ ε α) (default : ε → α) (s : σ) :
    (outcome (tryCatch x fun e => pure (default e)) s).2 = (outcome x s).2 := by
  rw [outcome_tryCatch]
  obtain ⟨result, t⟩ := outcome x s
  cases result <;> rfl

/-- The attempt with its result as a value, so that nothing is raised. -/
def caught (x : Attempt σ ε α) : Attempt σ ε (Except ε α) :=
  step fun s => (.ok (outcome x s).1, (outcome x s).2)

@[simp] theorem outcome_caught (x : Attempt σ ε α) (s : σ) :
    outcome (caught x) s = (.ok (outcome x s).1, (outcome x s).2) := rfl

/-- What is said of every result is said of the one there is. -/
theorem forall_outcome_iff {x : Attempt σ ε α} {s t : σ} {a : α} (ran : outcome x s = (.ok a, t))
    {Q : α → σ → Prop} : (∀ b u, outcome x s = (.ok b, u) → Q b u) ↔ Q a t := by
  constructor
  · intro all
    exact all a t ran
  · intro here b u ran'
    obtain ⟨⟨⟩, rfl⟩ := Prod.mk.inj (ran.symm.trans ran')
    exact here

/-- The attempt returns. -/
def Returns (x : Attempt σ ε α) (s : σ) : Prop := ∃ a, (outcome x s).1 = .ok a

theorem returns_pure (a : α) (s : σ) : Returns (pure a : Attempt σ ε α) s := ⟨a, rfl⟩

theorem not_returns_throw (e : ε) (s : σ) : ¬Returns (throw e : Attempt σ ε α) s := by
  rintro ⟨a, ⟨⟩⟩

theorem returns_bind_iff_of_outcome {x : Attempt σ ε α} {f : α → Attempt σ ε β} {s t : σ} {a : α}
    (ran : outcome x s = (.ok a, t)) : Returns (x >>= f) s ↔ Returns (f a) t := by
  rw [Returns, outcome_bind, ran]
  rfl

theorem returns_bind_iff {x : Attempt σ ε α} {f : α → Attempt σ ε β} {s : σ} :
    Returns (x >>= f) s ↔ Returns x s ∧ ∀ a t, outcome x s = (.ok a, t) → Returns (f a) t := by
  obtain ⟨⟨e | a, t⟩, ran⟩ : ∃ out, outcome x s = out := ⟨_, rfl⟩
  · have raised : ¬Returns x s := fun ⟨a, ok⟩ => by simp [ran] at ok
    refine iff_of_false (fun ⟨b, ok⟩ => ?_) fun both => raised both.1
    simp [outcome_bind, ran] at ok
  · rw [returns_bind_iff_of_outcome ran, forall_outcome_iff ran]
    exact (and_iff_right ⟨a, by rw [ran]⟩).symm

theorem returns_bind_iff_left {x : Attempt σ ε α} {f : α → Attempt σ ε β}
    (always : ∀ a t, Returns (f a) t) {s : σ} : Returns (x >>= f) s ↔ Returns x s :=
  returns_bind_iff.trans (and_iff_left fun a t _ => always a t)

theorem returns_bind_pure_iff {x : Attempt σ ε α} {f : α → β} {s : σ} :
    Returns (x >>= fun a => pure (f a)) s ↔ Returns x s :=
  returns_bind_iff_left fun a => returns_pure (f a)

theorem returns_tryCatch_throw_iff {x : Attempt σ ε α} {words : ε → ε} {s : σ} :
    Returns (tryCatch x fun e => throw (words e)) s ↔ Returns x s := by
  rw [Returns, Returns, outcome_tryCatch]
  obtain ⟨e | a, t⟩ := outcome x s
  · simp
  · simp

theorem outcome_bind_eq_ok_iff {x : Attempt σ ε α} {f : α → Attempt σ ε β} {s u : σ} {b : β} :
    outcome (x >>= f) s = (.ok b, u) ↔
      ∃ a t, outcome x s = (.ok a, t) ∧ outcome (f a) t = (.ok b, u) := by
  rw [outcome_bind]
  obtain ⟨e | a, t⟩ := outcome x s
  · simp
  · constructor
    · intro ran
      exact ⟨a, t, rfl, ran⟩
    · rintro ⟨_, _, ⟨⟩, ran⟩
      exact ran

theorem outcome_mapM_cons_eq_ok_iff {f : α → Attempt σ ε β} {a : α} {l : List α} {s u : σ}
    {bs : List β} :
    outcome ((a :: l).mapM f) s = (.ok bs, u) ↔
      ∃ b t, outcome (f a) s = (.ok b, t) ∧ ∃ cs, outcome (l.mapM f) t = (.ok cs, u) ∧
        b :: cs = bs := by
  rw [List.mapM_cons, outcome_bind_eq_ok_iff]
  refine exists_congr fun b => exists_congr fun t => and_congr_right fun _ => ?_
  rw [outcome_bind_eq_ok_iff]
  refine exists_congr fun cs => ?_
  constructor
  · rintro ⟨u, ran, ⟨⟩⟩
    exact ⟨ran, rfl⟩
  · rintro ⟨ran, rfl⟩
    exact ⟨u, ran, rfl⟩

theorem returns_mapM_cons_iff {f : α → Attempt σ ε β} {a : α} {l : List α} {s : σ} :
    Returns ((a :: l).mapM f) s ↔
      Returns (f a) s ∧ ∀ b t, outcome (f a) s = (.ok b, t) → Returns (l.mapM f) t := by
  rw [List.mapM_cons, returns_bind_iff]
  refine and_congr_right fun _ => forall_congr' fun b => forall_congr' fun t =>
    forall_congr' fun _ => ?_
  exact returns_bind_pure_iff

/-- A loop returns when each round does, in the state that the rounds before it leave. -/
theorem returns_mapM_iff {f : α → Attempt σ ε β} {l : List α} {s : σ} :
    Returns (l.mapM f) s ↔ ∀ done a rest, l = done ++ a :: rest →
      ∀ bs t, outcome (done.mapM f) s = (.ok bs, t) → Returns (f a) t := by
  induction l generalizing s with
  | nil => exact iff_of_true ⟨[], rfl⟩ fun done a rest split => by simp at split
  | cons a l ih =>
    rw [returns_mapM_cons_iff]
    constructor
    · rintro ⟨here, later⟩ done a' rest split bs t ran
      cases done with
      | nil =>
        obtain ⟨rfl, rfl⟩ := List.cons.inj split
        cases ran
        exact here
      | cons b done =>
        obtain ⟨rfl, rfl⟩ := List.cons.inj split
        obtain ⟨c, u, first, cs, ran, -⟩ := outcome_mapM_cons_eq_ok_iff.mp ran
        exact ih.mp (later c u first) done a' rest rfl cs t ran
    · intro each
      refine ⟨each [] a l rfl [] s rfl, fun b t first => ih.mpr ?_⟩
      intro done a' rest split bs u ran
      exact each (a :: done) a' rest (congrArg (a :: ·) split) (b :: bs) u
        (outcome_mapM_cons_eq_ok_iff.mpr ⟨b, t, first, bs, ran, rfl⟩)

/-! ## What all steps keep -/

/-- Whatever becomes of the attempt, the state that it leaves stands in `R` to the one before. -/
def Follows (R : σ → σ → Prop) (x : Attempt σ ε α) : Prop := ∀ s, R s (outcome x s).2

section
variable {R : σ → σ → Prop}

theorem follows_step {f : σ → Except ε α × σ} (here : ∀ s, R s (f s).2) : Follows R (step f) := here

theorem follows_pure [Std.Refl R] (a : α) : Follows R (pure a : Attempt σ ε α) := Std.Refl.refl

theorem Follows.caught {x : Attempt σ ε α} (follows : Follows R x) : Follows R (caught x) := follows

theorem follows_throw [Std.Refl R] (e : ε) : Follows R (throw e : Attempt σ ε α) := Std.Refl.refl

/-- Where the rounds leave what they depend on as it is, each returns or not from the start. -/
theorem returns_mapM_iff_forall {f : α → Attempt σ ε β} (each : ∀ a, Follows R (f a))
    (same : ∀ a s t, R s t → (Returns (f a) s ↔ Returns (f a) t)) {l : List α} {s : σ} :
    Returns (l.mapM f) s ↔ ∀ a ∈ l, Returns (f a) s := by
  induction l generalizing s with
  | nil => exact iff_of_true ⟨[], rfl⟩ fun a mem => absurd mem List.not_mem_nil
  | cons a l ih =>
    rw [returns_mapM_cons_iff, List.forall_mem_cons]
    refine and_congr_right fun ⟨b, ok⟩ => ?_
    have kept := each a s
    obtain ⟨⟨e | b, t⟩, ran⟩ : ∃ out, outcome (f a) s = out := ⟨_, rfl⟩
    · rw [ran] at ok
      cases ok
    · rw [ran] at kept
      have later := forall_outcome_iff (Q := fun _ u => Returns (l.mapM f) u) ran
      rw [later, ih]
      exact forall₂_congr fun a _ => (same a s t kept).symm

variable [IsTrans σ R]

theorem Follows.bind {x : Attempt σ ε α} {f : α → Attempt σ ε β} (first : Follows R x)
    (next : ∀ a, Follows R (f a)) : Follows R (x >>= f) := by
  intro s
  have start := first s
  rw [outcome_bind]
  generalize outcome x s = ran at start ⊢
  obtain ⟨result, t⟩ := ran
  cases result with
  | ok a => exact IsTrans.trans _ _ _ start (next a t)
  | error e => exact start

theorem Follows.tryCatch {x : Attempt σ ε α} {handler : ε → Attempt σ ε α} (first : Follows R x)
    (handled : ∀ e, Follows R (handler e)) : Follows R (tryCatch x handler) := by
  intro s
  have start := first s
  rw [outcome_tryCatch]
  generalize outcome x s = ran at start ⊢
  obtain ⟨result, t⟩ := ran
  cases result with
  | ok a => exact start
  | error e => exact IsTrans.trans _ _ _ start (handled e t)

theorem follows_foldlM [Std.Refl R] {f : β → α → Attempt σ ε β} (each : ∀ b a, Follows R (f b a))
    (l : List α) (b : β) : Follows R (l.foldlM f b) := by
  induction l generalizing b with
  | nil => exact follows_pure b
  | cons a l ih =>
    rw [List.foldlM_cons]
    exact (each b a).bind ih

theorem follows_mapM [Std.Refl R] {f : α → Attempt σ ε β} (each : ∀ a, Follows R (f a))
    (l : List α) : Follows R (l.mapM f) := by
  induction l with
  | nil => exact follows_pure []
  | cons a l ih =>
    rw [List.mapM_cons]
    exact (each a).bind fun b => ih.bind fun bs => follows_pure (b :: bs)

end

end Attempts
