import GigaPdf.Offline.Queue

/-!
# Concurrent flushes

Two tabs flush the store that they share. A flush reads the oldest operation in one transaction and
removes the oldest one in another, and then handles what it has read.
-/

namespace GigaPdf

open Runs

section
variable {π : Type}

inductive FlushLoop
  | first | second
deriving DecidableEq

/-- Where a loop stands. -/
inductive FlushPhase (π : Type)
  | ready
  | peeked (op : PendingOperation π)
  | holding (op : PendingOperation π)
  | finished
deriving DecidableEq

/-- What a loop has removed and not handled yet. -/
def FlushPhase.held : FlushPhase π → List (PendingOperation π)
  | .holding op => [op]
  | .ready | .peeked _ | .finished => []

/-- `handled` is what the handlers were called for, by either loop. -/
structure Flushes (π : Type) where
  store : List (PendingOperation π)
  phase : FlushLoop → FlushPhase π
  handled : List (PendingOperation π)

inductive FlushStep
  | peek | dequeue | handle
deriving DecidableEq

namespace Flushes

/-- One atomic step of a loop, `now` being when the loops have started. The operation that is removed
is not looked at, and one that has expired is not handled. -/
def step (now : FlushLoop → Int) (σ : Flushes π) : FlushLoop × FlushStep → Option (Flushes π)
  | (loop, .peek) =>
    match σ.phase loop with
    | .ready =>
      match σ.store.head? with
      | none => some { σ with phase := Function.update σ.phase loop .finished }
      | some op => some { σ with phase := Function.update σ.phase loop (.peeked op) }
    | .peeked _ | .holding _ | .finished => none
  | (loop, .dequeue) =>
    match σ.phase loop with
    | .peeked op =>
      some { σ with
        store := σ.store.tail
        phase := Function.update σ.phase loop
          (if op.expired (now loop) then .ready else .holding op) }
    | .ready | .holding _ | .finished => none
  | (loop, .handle) =>
    match σ.phase loop with
    | .holding op =>
      some { σ with
        phase := Function.update σ.phase loop .ready
        handled := σ.handled ++ [op] }
    | .ready | .peeked _ | .finished => none

def start (ops : List (PendingOperation π)) : Flushes π := ⟨ops, fun _ => .ready, []⟩

/-! ## The account -/

/-- The operation has not expired for either loop. -/
def Young (now : FlushLoop → Int) (op : PendingOperation π) : Prop :=
  op.expired (now .first) = false ∧ op.expired (now .second) = false

instance (now : FlushLoop → Int) (op : PendingOperation π) : Decidable (Young now op) := by
  unfold Young
  infer_instance

def heldBy (phase : FlushLoop → FlushPhase π) : List (PendingOperation π) :=
  (phase .first).held ++ (phase .second).held

/-- Where the operations are: waiting, in the hands of a loop, or handled. -/
def everywhere (σ : Flushes π) : List (PendingOperation π) :=
  σ.store ++ (heldBy σ.phase ++ σ.handled)

/-- No operation is gone unhandled and none is there twice; in the end each was handled once. -/
structure ExactlyOnce (now : FlushLoop → Int) (ops : List (PendingOperation π)) (σ : Flushes π) :
    Prop where
  accounted : (σ.everywhere.filter fun op => Young now op).Perm (ops.filter fun op => Young now op)
  done : (∀ loop, σ.phase loop = .finished) →
    (σ.handled.filter fun op => Young now op).Perm (ops.filter fun op => Young now op)

/-- A removal takes what the loop has read, or nothing that would have to be handled. -/
def SoundStep (now : FlushLoop → Int) (σ : Flushes π) : FlushLoop × FlushStep → Prop
  | (loop, .dequeue) => ∀ op, σ.phase loop = .peeked op → σ.store.head? = some op ∨
      ¬Young now op ∧ ∀ other, σ.store.head? = some other → ¬Young now other
  | (_, .peek) | (_, .handle) => True

instance [DecidableEq π] (now : FlushLoop → Int) (σ : Flushes π) :
    ∀ a, Decidable (SoundStep now σ a)
  | (loop, .dequeue) =>
    decidable_of_iff
      (∀ op ∈ (match σ.phase loop with | .peeked op => some op | _ => none),
        σ.store.head? = some op ∨
          ¬Young now op ∧ ∀ other ∈ σ.store.head?, ¬Young now other)
      (by
        rw [SoundStep]
        cases σ.phase loop <;> simp)
  | (_, .peek) | (_, .handle) => .isTrue trivial

/-- A loop ends when nothing is left. -/
def DoneEmpty (σ : Flushes π) : Prop := ∀ loop, σ.phase loop = .finished → σ.store = []

section
variable {now : FlushLoop → Int} {ops : List (PendingOperation π)} {σ σ' : Flushes π}

theorem phase_update {phase : FlushLoop → FlushPhase π} {loop other : FlushLoop}
    {p q : FlushPhase π} (h : Function.update phase loop p other = q) :
    p = q ∨ phase other = q := by
  by_cases same : other = loop
  · subst same
    rw [Function.update_self] at h
    exact Or.inl h
  · rw [Function.update_of_ne same] at h
    exact Or.inr h

/-- What each step does. -/
theorem step_cases {loop : FlushLoop} {kind : FlushStep} (h : σ.step now (loop, kind) = some σ') :
    (kind = .peek ∧ σ.phase loop = .ready ∧ ∃ p : FlushPhase π, p.held = [] ∧
      (p = .finished → σ.store = []) ∧ σ' = { σ with phase := Function.update σ.phase loop p }) ∨
    (kind = .dequeue ∧ ∃ op, σ.phase loop = .peeked op ∧ σ' = { σ with
      store := σ.store.tail
      phase := Function.update σ.phase loop
        (if op.expired (now loop) then .ready else .holding op) }) ∨
    (kind = .handle ∧ ∃ op, σ.phase loop = .holding op ∧ σ' = { σ with
      phase := Function.update σ.phase loop .ready
      handled := σ.handled ++ [op] }) := by
  cases kind with
  | peek =>
    simp only [Flushes.step] at h
    split at h
    · rename_i ready
      cases head : σ.store.head? with
      | none =>
        rw [head] at h
        cases h
        exact Or.inl ⟨rfl, ready, .finished, rfl, fun _ => List.head?_eq_none_iff.mp head, rfl⟩
      | some first =>
        rw [head] at h
        cases h
        exact Or.inl ⟨rfl, ready, .peeked first, rfl, by simp, rfl⟩
    · cases h
    · cases h
    · cases h
  | dequeue =>
    simp only [Flushes.step] at h
    split at h
    · rename_i op peeked
      cases h
      exact Or.inr (Or.inl ⟨rfl, op, peeked, rfl⟩)
    · cases h
    · cases h
    · cases h
  | handle =>
    simp only [Flushes.step] at h
    split at h
    · rename_i op holding
      cases h
      exact Or.inr (Or.inr ⟨rfl, op, holding, rfl⟩)
    · cases h
    · cases h
    · cases h

theorem DoneEmpty.step {loop : FlushLoop} {kind : FlushStep} (empty : DoneEmpty σ)
    (h : σ.step now (loop, kind) = some σ') : DoneEmpty σ' := by
  intro other finished
  obtain ⟨-, -, p, -, done, rfl⟩ | ⟨-, op, -, rfl⟩ | ⟨-, op, -, rfl⟩ := step_cases h
  · obtain new | old := phase_update finished
    · exact done new
    · exact empty other old
  · obtain absurd | old := phase_update finished
    · split at absurd <;> cases absurd
    · simp only
      rw [empty other old]
      rfl
  · obtain absurd | old := phase_update finished
    · cases absurd
    · exact empty other old

section
open Classical

theorem accounted_iff :
    (σ.everywhere.filter fun op => Young now op).Perm (ops.filter fun op => Young now op) ↔
      ∀ op, Young now op → σ.everywhere.count op = ops.count op := by
  rw [List.perm_iff_count]
  constructor
  · intro all op young
    have count := all op
    rwa [List.count_filter (by simpa using young), List.count_filter (by simpa using young)] at count
  · intro all op
    by_cases young : Young now op
    · rw [List.count_filter (by simpa using young), List.count_filter (by simpa using young)]
      exact all op young
    · have absent : ∀ l : List (PendingOperation π), op ∉ l.filter fun op => Young now op := by
        intro l mem
        exact young (by simpa using (List.mem_filter.mp mem).2)
      rw [List.count_eq_zero_of_not_mem (absent _), List.count_eq_zero_of_not_mem (absent _)]

/-- Only the loop that takes a step holds something else after it. -/
theorem count_heldBy_update (phase : FlushLoop → FlushPhase π) (loop : FlushLoop)
    (p : FlushPhase π) (op : PendingOperation π) :
    (heldBy (Function.update phase loop p)).count op + (phase loop).held.count op =
      (heldBy phase).count op + p.held.count op := by
  have other : ∀ a b : FlushLoop, a ≠ b → Function.update phase a p b = phase b :=
    fun a b ne => Function.update_of_ne ne.symm _ _
  simp only [heldBy, List.count_append]
  cases loop with
  | first =>
    rw [Function.update_self, other .first .second (by decide)]
    omega
  | second =>
    rw [Function.update_self, other .second .first (by decide)]
    omega

/-- Reading and handling lose nothing. -/
theorem count_step_of_not_dequeue {loop : FlushLoop} {kind : FlushStep}
    (h : σ.step now (loop, kind) = some σ') (other : kind ≠ .dequeue) (op : PendingOperation π) :
    σ'.everywhere.count op = σ.everywhere.count op := by
  obtain ⟨-, ready, p, idle, -, rfl⟩ | ⟨removal, -⟩ | ⟨-, held, holding, rfl⟩ := step_cases h
  · have moved := count_heldBy_update σ.phase loop p op
    rw [ready, idle] at moved
    simp only [everywhere, List.count_append, FlushPhase.held, List.count_nil] at moved ⊢
    omega
  · exact absurd removal other
  · have moved := count_heldBy_update σ.phase loop .ready op
    rw [holding] at moved
    simp only [everywhere, List.count_append, FlushPhase.held, List.count_nil] at moved ⊢
    omega

theorem count_eq_tail {α : Type*} [DecidableEq α] (l : List α) (x : α) :
    l.count x = l.tail.count x + if l.head? = some x then 1 else 0 := by
  cases l with
  | nil => rfl
  | cons first rest =>
    rw [List.count_cons, List.tail_cons, List.head?_cons]
    by_cases same : first = x <;> simp [same]

/-- After a removal the loop holds what it has read, as long as that is young. -/
theorem count_held_read {read op : PendingOperation π} (loop : FlushLoop) (young : Young now op) :
    (FlushPhase.held (if read.expired (now loop) then .ready else .holding read)).count op =
      if read = op then 1 else 0 := by
  by_cases same : read = op
  · subst same
    have kept : read.expired (now loop) = false := by
      cases loop with
      | first => exact young.1
      | second => exact young.2
    simp [kept, FlushPhase.held]
  · split <;> simp [FlushPhase.held, same]

/-- A removal counts what the loop has read, and takes the first of the queue. -/
theorem count_dequeue {loop : FlushLoop} {read op : PendingOperation π}
    (peeked : σ.phase loop = .peeked read) (young : Young now op) :
    (everywhere { σ with
        store := σ.store.tail
        phase := Function.update σ.phase loop
          (if read.expired (now loop) then .ready else .holding read) }).count op +
        (if σ.store.head? = some op then 1 else 0) =
      σ.everywhere.count op + if read = op then 1 else 0 := by
  have update := count_heldBy_update σ.phase loop
    (if read.expired (now loop) then .ready else .holding read) op
  have removed := count_eq_tail σ.store op
  rw [count_held_read loop young, peeked] at update
  simp only [everywhere, List.count_append, FlushPhase.held, List.count_nil] at update ⊢
  omega

/-- A removal keeps the account just when it takes what the loop has read, or nothing that would
have to be handled. -/
theorem accounted_dequeue_iff {loop : FlushLoop} {read : PendingOperation π}
    (peeked : σ.phase loop = .peeked read)
    (accounted : ∀ op, Young now op → σ.everywhere.count op = ops.count op) :
    (∀ op, Young now op → (everywhere { σ with
        store := σ.store.tail
        phase := Function.update σ.phase loop
          (if read.expired (now loop) then .ready else .holding read) }).count op =
      ops.count op) ↔
      (σ.store.head? = some read ∨
        ¬Young now read ∧ ∀ other, σ.store.head? = some other → ¬Young now other) := by
  constructor
  · intro balanced
    by_cases found : σ.store.head? = some read
    · exact Or.inl found
    · have count : ∀ op, Young now op →
          (if σ.store.head? = some op then 1 else 0) = if read = op then 1 else 0 := by
        intro op young
        have moved := count_dequeue peeked young
        have now_balanced := balanced op young
        have was_accounted := accounted op young
        omega
      refine Or.inr ⟨fun young => ?_, fun other head young => ?_⟩
      · have one := count read young
        rw [if_neg found, if_pos rfl] at one
        cases one
      · have one := count other young
        rw [if_pos head] at one
        split at one
        · rename_i same
          exact found (same ▸ head)
        · cases one
  · intro sound op young
    have moved := count_dequeue peeked young
    have was_accounted := accounted op young
    have same : (if σ.store.head? = some op then 1 else 0) = if read = op then 1 else 0 := by
      obtain head | ⟨old, olds⟩ := sound
      · rw [head]
        simp
      · have apart : read ≠ op := fun same => old (same ▸ young)
        rw [if_neg fun head => olds op head young, if_neg apart]
    omega

end

theorem exactlyOnce_of_accounted (empty : DoneEmpty σ)
    (accounted : (σ.everywhere.filter fun op => Young now op).Perm
      (ops.filter fun op => Young now op)) : ExactlyOnce now ops σ := by
  refine ⟨accounted, fun finished => ?_⟩
  have nothing := empty .first (finished .first)
  rwa [everywhere, nothing, heldBy, finished .first, finished .second] at accounted

theorem exactlyOnce_step_iff {loop : FlushLoop} {kind : FlushStep} (empty : DoneEmpty σ)
    (once : ExactlyOnce now ops σ) (h : σ.step now (loop, kind) = some σ') :
    ExactlyOnce now ops σ' ↔ SoundStep now σ (loop, kind) := by
  classical
  have accounted := accounted_iff.mp once.accounted
  have kept : ExactlyOnce now ops σ' ↔
      ∀ op, Young now op → σ'.everywhere.count op = ops.count op := by
    constructor
    · intro once
      exact accounted_iff.mp once.accounted
    · intro all
      exact exactlyOnce_of_accounted (empty.step h) (accounted_iff.mpr all)
  rw [kept]
  by_cases removal : kind = .dequeue
  · subst removal
    obtain ⟨absurd, -⟩ | ⟨-, read, peeked, rfl⟩ | ⟨absurd, -⟩ := step_cases h
    · cases absurd
    · rw [accounted_dequeue_iff peeked accounted, SoundStep, peeked]
      simp
    · cases absurd
  · have sound : SoundStep now σ (loop, kind) := by
      cases kind with
      | dequeue => exact absurd rfl removal
      | peek | handle => trivial
    apply iff_of_true _ sound
    intro op young
    rw [count_step_of_not_dequeue h removal]
    exact accounted op young

/-- **Two flushes handle every operation once** as long as each removes what it has read; the first
removal that does not makes an operation lost or handled twice. -/
theorem flushes_exactly_once (run : Reaches (step now) (SoundStep now) (start ops) σ) :
    ExactlyOnce now ops σ ∧ ∀ a σ', σ.step now a = some σ' →
      (ExactlyOnce now ops σ' ↔ SoundStep now σ a) := by
  have kept : DoneEmpty σ ∧ ExactlyOnce now ops σ := by
    apply run.invariant (P := fun σ => DoneEmpty σ ∧ ExactlyOnce now ops σ)
    · rintro σ ⟨loop, kind⟩ σ' ⟨empty, once⟩ sound h
      exact ⟨empty.step h, (exactlyOnce_step_iff empty once h).mpr sound⟩
    · have empty : DoneEmpty (start ops) := fun _ absurd => by cases absurd
      refine ⟨empty, exactlyOnce_of_accounted empty ?_⟩
      rw [everywhere, start, heldBy]
      simp [FlushPhase.held]
  refine ⟨kept.2, ?_⟩
  rintro ⟨loop, kind⟩ σ' h
  exact exactlyOnce_step_iff kept.1 kept.2 h

end

end Flushes

end

def twoSaved : List (PendingOperation Unit) := [savedAt 1 0 0, savedAt 2 5 0]

/-- One loop after the other. -/
theorem flushes_exactly_once_in_turn : ∃ σ : Flushes Unit,
    Flushes.ExactlyOnce (fun _ => 10) twoSaved σ ∧ ids σ.handled = [1, 2] := by
  obtain ⟨σ, run, handled⟩ := exists_reaches_of_runAll (Flushes.step fun _ => 10)
    (Flushes.SoundStep fun _ => 10) (Flushes.start twoSaved)
    [(.first, .peek), (.first, .dequeue), (.second, .peek), (.first, .handle),
      (.second, .dequeue), (.second, .handle)]
    (fun σ => ids σ.handled = [1, 2]) (by decide)
  exact ⟨σ, (Flushes.flushes_exactly_once run).1, handled⟩

/-- Both loops read the first operation, and both remove one: the second operation is lost, and the
first is handled twice. -/
theorem flushes_lose_and_repeat : ∃ σ : Flushes Unit,
    Reaches (Flushes.step fun _ => 10) always (Flushes.start twoSaved) σ ∧
      (∀ loop, σ.phase loop = .finished) ∧ ids σ.handled = [1, 1] ∧
      ¬Flushes.ExactlyOnce (fun _ => 10) twoSaved σ := by
  obtain ⟨σ, run, first, second, handled⟩ := exists_reaches_of_runAll (Flushes.step fun _ => 10)
    always (Flushes.start twoSaved)
    [(.first, .peek), (.second, .peek), (.first, .dequeue), (.second, .dequeue),
      (.first, .handle), (.second, .handle), (.first, .peek), (.second, .peek)]
    (fun σ => σ.phase .first = .finished ∧ σ.phase .second = .finished ∧
      σ.handled = [savedAt 1 0 0, savedAt 1 0 0]) (by decide)
  have finished : ∀ loop, σ.phase loop = .finished := by
    intro loop
    cases loop with
    | first => exact first
    | second => exact second
  refine ⟨σ, run, finished, by rw [handled]; rfl, fun once => ?_⟩
  have perm := once.done finished
  rw [handled] at perm
  exact absurd perm (by decide)

end GigaPdf
