import Mathlib.Logic.Relation

/-!
# Runs of a partial step function

A system is a partial function `step : σ → α → Option σ`: `none` means that the
action is refused in that state. Runs are the reflexive transitive closure of
its steps, restricted to the actions that a predicate admits in the state before
the step.
-/

namespace Runs

variable {σ α : Type*}

/-- One admitted step. -/
def Next (step : σ → α → Option σ) (admitted : σ → α → Prop) (s t : σ) : Prop :=
  ∃ a, admitted s a ∧ step s a = some t

/-- `t` is reached from `s` by admitted steps. -/
abbrev Reaches (step : σ → α → Option σ) (admitted : σ → α → Prop) : σ → σ → Prop :=
  Relation.ReflTransGen (Next step admitted)

/-- Every action is admitted. -/
def always (_ : σ) (_ : α) : Prop := True

instance (s : σ) (a : α) : Decidable (always s a) := .isTrue trivial

/-- What one admitted step preserves, a run preserves. -/
theorem Reaches.invariant {step : σ → α → Option σ} {admitted : σ → α → Prop} {P : σ → Prop}
    (preserves : ∀ s a t, P s → admitted s a → step s a = some t → P t)
    {s t : σ} (h : Reaches step admitted s t) (hs : P s) : P t := by
  induction h with
  | refl => exact hs
  | tail _ last ih =>
    obtain ⟨a, ha, ht⟩ := last
    exact preserves _ a _ ih ha ht

/-- A run that admits fewer actions is a run of the larger system. -/
theorem Reaches.weaken {step : σ → α → Option σ} {few more : σ → α → Prop}
    (h : ∀ s a, few s a → more s a) {s t : σ} (r : Reaches step few s t) : Reaches step more s t := by
  refine Relation.ReflTransGen.mono (fun a b next => ?_) _ _ r
  obtain ⟨x, hx, hstep⟩ := next
  exact ⟨x, h a x hx, hstep⟩

section
variable (step : σ → α → Option σ) (admitted : σ → α → Prop) [∀ s a, Decidable (admitted s a)]

/-- Run a list of actions in order; an action that is refused or not admitted ends the run. -/
def runAll : σ → List α → Option σ
  | s, [] => some s
  | s, a :: rest => if admitted s a then (step s a).bind fun t => runAll t rest else none

variable {step admitted}

theorem reaches_of_runAll {s t : σ} {as : List α} (h : runAll step admitted s as = some t) :
    Reaches step admitted s t := by
  induction as generalizing s with
  | nil => cases h; exact .refl
  | cons a rest ih =>
    simp only [runAll, Option.ite_none_right_eq_some] at h
    obtain ⟨ha, h⟩ := h
    obtain ⟨next, hn, hr⟩ := Option.bind_eq_some_iff.mp h
    exact .head ⟨a, ha, hn⟩ (ih hr)

variable (step admitted)

/-- The end state of a list of actions, when none is refused and `p` holds there. -/
theorem exists_reaches_of_runAll (s : σ) (as : List α) (p : σ → Prop) [DecidablePred p]
    (h : (runAll step admitted s as).any (fun t => decide (p t)) = true) :
    ∃ t, Reaches step admitted s t ∧ p t := by
  obtain ⟨t, ht, hp⟩ := (Option.any_eq_true _ _).mp h
  exact ⟨t, reaches_of_runAll ht, of_decide_eq_true hp⟩

end

/-- A law about every action and the actions before it, with an action put in front. -/
theorem forall_split_cons {β : Type*} {P : List β → β → Prop} {a : β} {actions : List β} :
    (∀ earlier x later, a :: actions = earlier ++ x :: later → P earlier x) ↔
      P [] a ∧ ∀ earlier x later, actions = earlier ++ x :: later → P (a :: earlier) x := by
  constructor
  · intro all
    refine ⟨all [] a actions rfl, fun earlier x later split => ?_⟩
    exact all (a :: earlier) x later (by rw [split]; rfl)
  · rintro ⟨first, rest⟩ earlier x later split
    cases earlier with
    | nil =>
      cases split
      exact first
    | cons y earlier =>
      obtain ⟨rfl, behind⟩ := List.cons.inj split
      exact rest earlier x later behind

end Runs
