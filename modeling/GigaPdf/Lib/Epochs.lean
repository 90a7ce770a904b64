import Mathlib.Algebra.BigOperators.Group.List.Basic
import Mathlib.Algebra.GroupWithZero.Nat
import Mathlib.Algebra.Order.Monoid.Unbundled.Basic

/-!
# Epochs

A counter that is set up, counts and runs out divides the time into epochs. When epochs start a
width apart at least, a span that is no longer than the width meets two of them at most.
-/

namespace Epochs

structure Epoch where
  start : Nat
  events : List Nat
deriving DecidableEq, Repr

/-- The events of an epoch in the `width` moments from `first` on. -/
def Epoch.within (e : Epoch) (first width : Nat) : Nat :=
  e.events.countP fun t => decide (first ≤ t ∧ t < first + width)

def within (epochs : List Epoch) (first width : Nat) : Nat :=
  (epochs.map fun e => e.within first width).sum

/-- The events of all epochs, those of the newest epoch in front. -/
def events (epochs : List Epoch) : List Nat := epochs.flatMap Epoch.events

/-- The epochs with the newest in front. -/
structure Spaced (width : Nat) (epochs : List Epoch) : Prop where
  apart : epochs.Pairwise fun newer older => older.start + width ≤ newer.start
  before : epochs.Pairwise fun newer older => ∀ t ∈ older.events, t ≤ newer.start
  after : ∀ e ∈ epochs, ∀ t ∈ e.events, e.start ≤ t

theorem within_cons (e : Epoch) (epochs : List Epoch) (first width : Nat) :
    within (e :: epochs) first width = e.within first width + within epochs first width := by
  rw [within, within, List.map_cons, List.sum_cons]

theorem within_eq_countP (epochs : List Epoch) (first width : Nat) :
    within epochs first width =
      (events epochs).countP fun t => decide (first ≤ t ∧ t < first + width) := by
  induction epochs with
  | nil => rfl
  | cons e epochs ih =>
    rw [within_cons, ih, events, events, List.flatMap_cons, List.countP_append]
    rfl

theorem Epoch.within_le (e : Epoch) (first width : Nat) : e.within first width ≤ e.events.length :=
  List.countP_le_length

namespace Spaced

variable {width first limit : Nat} {e : Epoch} {epochs : List Epoch}

theorem tail (h : Spaced width (e :: epochs)) : Spaced width epochs where
  apart := (List.pairwise_cons.mp h.apart).2
  before := (List.pairwise_cons.mp h.before).2
  after := fun x hx => h.after x (List.mem_cons_of_mem e hx)

theorem nil : Spaced width [] := ⟨.nil, .nil, nofun⟩

/-- What is older than an epoch that starts before the span is before the span too. -/
theorem within_older (h : Spaced width (e :: epochs)) (early : e.start < first) :
    within epochs first width = 0 := by
  have before := (List.pairwise_cons.mp h.before).1
  rw [within_eq_countP, List.countP_eq_zero]
  intro t ht
  obtain ⟨older, mem, inside⟩ := List.mem_flatMap.mp ht
  have := before older mem t inside
  rw [decide_eq_true_eq]
  omega

/-- Behind an epoch with an event in the span one more epoch at most has any. -/
theorem within_tail (h : Spaced width (e :: epochs)) (meets : e.start < first + width)
    (bounded : ∀ x ∈ epochs, x.events.length ≤ limit) : within epochs first width ≤ limit := by
  cases epochs with
  | nil => exact Nat.zero_le _
  | cons older epochs =>
    have apart := (List.pairwise_cons.mp h.apart).1 older List.mem_cons_self
    have none : within epochs first width = 0 := h.tail.within_older (by omega)
    have some := older.within_le first width
    have := bounded older List.mem_cons_self
    rw [within_cons, none]
    omega

/-- A span of the width between the starts has the events of two epochs at most. -/
theorem within_le (h : Spaced width epochs) (bounded : ∀ x ∈ epochs, x.events.length ≤ limit) :
    within epochs first width ≤ 2 * limit := by
  induction epochs with
  | nil => exact Nat.zero_le _
  | cons e epochs ih =>
    have rest : ∀ x ∈ epochs, x.events.length ≤ limit := fun x hx =>
      bounded x (List.mem_cons_of_mem e hx)
    rw [within_cons]
    by_cases meets : e.start < first + width
    · have newest := e.within_le first width
      have tail := h.within_tail meets rest
      have := bounded e List.mem_cons_self
      omega
    · have late : e.within first width = 0 := by
        rw [Epoch.within, List.countP_eq_zero]
        intro t ht
        have := h.after e List.mem_cons_self t ht
        rw [decide_eq_true_eq]
        omega
      rw [late, Nat.zero_add]
      exact ih h.tail rest

/-- A new epoch is opened when the newest has run its width. -/
theorem open_ {now : Nat} (h : Spaced width epochs) (past : ∀ t ∈ events epochs, t ≤ now)
    (passed : ∀ x ∈ epochs, x.start + width ≤ now) : Spaced width (⟨now, []⟩ :: epochs) where
  apart := List.pairwise_cons.mpr ⟨passed, h.apart⟩
  before := List.pairwise_cons.mpr
    ⟨fun x hx t ht => past t (List.mem_flatMap.mpr ⟨x, hx, ht⟩), h.before⟩
  after := by
    intro x hx t ht
    rcases List.mem_cons.mp hx with rfl | hx
    · cases ht
    · exact h.after x hx t ht

/-- An event is added to the newest epoch. -/
theorem record {now : Nat} (h : Spaced width (e :: epochs)) (started : e.start ≤ now) :
    Spaced width ({ e with events := now :: e.events } :: epochs) where
  apart := List.pairwise_cons.mpr (List.pairwise_cons.mp h.apart)
  before := List.pairwise_cons.mpr (List.pairwise_cons.mp h.before)
  after := by
    intro x hx t ht
    rcases List.mem_cons.mp hx with rfl | hx
    · rcases List.mem_cons.mp ht with rfl | ht
      · exact started
      · exact h.after e List.mem_cons_self t ht
    · exact h.after x (List.mem_cons_of_mem e hx) t ht

/-- The starts of all epochs are before that of the newest. -/
theorem start_le (h : Spaced width (e :: epochs)) {x : Epoch} (hx : x ∈ e :: epochs) :
    x.start ≤ e.start := by
  rcases List.mem_cons.mp hx with rfl | hx
  · exact Nat.le_refl _
  · have := (List.pairwise_cons.mp h.apart).1 x hx
    omega

end Spaced

end Epochs
