import Mathlib.Data.List.Basic

/-!
# Timelines

What an undo history is for: the states of a document in the order in which they came, and one of
them that is current. A new state follows the current one in place of all states after it, and the
oldest state is dropped when there are more than a bound. Undo and redo go back and forward, as far
as there are states.
-/

/-- States in order, and the position of the current one. -/
structure Timeline (σ : Type*) where
  states : List σ
  position : Nat
  valid : position < states.length

namespace Timeline

variable {σ : Type*}

def start (s : σ) : Timeline σ := ⟨[s], 0, Nat.zero_lt_one⟩

def current (t : Timeline σ) : σ := t.states.get ⟨t.position, t.valid⟩

def moveTo (t : Timeline σ) (i : Nat) (h : i < t.states.length) : Timeline σ :=
  { t with position := i, valid := h }

def back (t : Timeline σ) (n : Nat) : Timeline σ :=
  t.moveTo (t.position - n) (Nat.lt_of_le_of_lt (Nat.sub_le _ _) t.valid)

def forward (t : Timeline σ) (n : Nat) : Timeline σ :=
  t.moveTo (min (t.position + n) (t.states.length - 1))
    (Nat.lt_of_le_of_lt (Nat.min_le_right _ _) (Nat.sub_one_lt (Nat.ne_of_gt
      (Nat.lt_of_le_of_lt (Nat.zero_le _) t.valid))))

/-- The states up to the current one, and a new one. -/
def extended (t : Timeline σ) (s : σ) : List σ := t.states.take (t.position + 1) ++ [s]

theorem length_extended (t : Timeline σ) (s : σ) :
    (t.extended s).length = t.position + 2 := by
  have := t.valid
  rw [extended, List.length_append, List.length_take, List.length_singleton]
  omega

/-- At most one state is dropped. -/
def push (t : Timeline σ) (bound : Int) (s : σ) : Timeline σ :=
  if bound < (t.extended s).length then
    ⟨(t.extended s).tail, t.position, by
      rw [List.length_tail, length_extended]
      omega⟩
  else
    ⟨t.extended s, t.position + 1, by
      rw [length_extended]
      omega⟩

variable {t : Timeline σ} {s : σ} {n : Nat} {bound : Int}

theorem getElem?_position (t : Timeline σ) : t.states[t.position]? = some t.current :=
  List.getElem?_eq_getElem t.valid

theorem getElem?_extended_last (t : Timeline σ) (s : σ) :
    (t.extended s)[t.position + 1]? = some s := by
  have valid := t.valid
  have length : (t.states.take (t.position + 1)).length = t.position + 1 := by
    rw [List.length_take]
    omega
  rw [extended, List.getElem?_append_right (Nat.le_of_eq length), length]
  simp

/-- A new state is the current one. -/
theorem current_push (t : Timeline σ) (bound : Int) (s : σ) : (t.push bound s).current = s := by
  apply Option.some.inj
  rw [← getElem?_position]
  simp only [push]
  split
  · rw [List.getElem?_tail]
    exact getElem?_extended_last t s
  · exact getElem?_extended_last t s

theorem back_forward (enough : n ≤ t.position ∨ t.position + 1 = t.states.length) :
    (t.back n).forward n = t := by
  cases t with
  | mk states position valid =>
    have same : min (position - n + n) (states.length - 1) = position := by
      change n ≤ position ∨ position + 1 = states.length at enough
      omega
    simp only [back, forward, moveTo, same]

/-- The bound is kept, but for one state that is always there. -/
theorem length_push_le (bounded : (t.states.length : Int) ≤ max 1 bound) :
    ((t.push bound s).states.length : Int) ≤ max 1 bound := by
  have valid := t.valid
  have extended := length_extended t s
  rw [push]
  split
  · simp only [List.length_tail]
    omega
  · rename_i fits
    change ((t.extended s).length : Int) ≤ max 1 bound
    omega

end Timeline
