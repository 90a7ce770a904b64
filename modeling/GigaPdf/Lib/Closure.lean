import Mathlib.Data.List.Basic
import Mathlib.Logic.Relation

/-!
# Descendants in a finite relation

A relation is given by the list of children of a list of nodes. `levels` walks it level
by level and does not end on a cycle; `grow` adds the missing children for a number of
rounds and always ends. With a round for each node that can be a child, `grow` is closed.
-/

namespace Closure

variable {α : Type*} (children : List α → List α)

/-- The nodes of a level and of all levels below it, or nothing when the fuel runs out. -/
def levels : Nat → List α → Option (List α)
  | _, [] => some []
  | 0, _ :: _ => none
  | fuel + 1, level => (levels fuel (children level)).map (level ++ ·)

/-- What children keep, all descendants keep. -/
theorem levels_invariant {P : List α → Prop} (hchildren : ∀ ids, P ids → P (children ids))
    (happend : ∀ ids ids', P ids → P ids' → P (ids ++ ids')) {fuel : Nat} {level ids : List α}
    (hlevel : P level) (h : levels children fuel level = some ids) : P ids := by
  induction fuel generalizing level ids with
  | zero =>
    cases level with
    | nil => cases h; exact hlevel
    | cons x rest => cases h
  | succ fuel ih =>
    cases level with
    | nil => cases h; exact hlevel
    | cons x rest =>
      obtain ⟨below, hbelow, rfl⟩ := Option.map_eq_some_iff.mp h
      exact happend _ _ hlevel (ih (hchildren _ hlevel) hbelow)

/-- The fuel is enough when no node is that many levels down. -/
theorem levels_some (Level : Nat → α → Prop)
    (down : ∀ n ids, (∀ x ∈ ids, Level n x) → ∀ y ∈ children ids, Level (n + 1) y)
    {fuel : Nat} (n : Nat) (bottom : ∀ x, ¬Level (fuel + n) x) {level : List α}
    (at_level : ∀ x ∈ level, Level n x) : ∃ ids, levels children fuel level = some ids := by
  induction fuel generalizing n level with
  | zero =>
    cases level with
    | nil => exact ⟨[], rfl⟩
    | cons x rest => exact absurd (at_level x List.mem_cons_self) (Nat.zero_add n ▸ bottom x)
  | succ fuel ih =>
    cases level with
    | nil => exact ⟨[], rfl⟩
    | cons x rest =>
      obtain ⟨ids, h⟩ := ih (n + 1) (by rwa [Nat.add_assoc, Nat.add_comm 1] at bottom)
        (down n _ at_level)
      exact ⟨x :: rest ++ ids, by simp [levels, h]⟩

/-- The levels hold what can be reached from the first one. -/
theorem mem_levels (Child : α → α → Prop)
    (mem : ∀ ids y, y ∈ children ids ↔ ∃ x ∈ ids, Child x y) {fuel : Nat} {level ids : List α}
    (h : levels children fuel level = some ids) {y : α} :
    y ∈ ids ↔ ∃ x ∈ level, Relation.ReflTransGen Child x y := by
  induction fuel generalizing level ids with
  | zero =>
    cases level with
    | nil => cases h; simp
    | cons x rest => cases h
  | succ fuel ih =>
    cases level with
    | nil => cases h; simp
    | cons x rest =>
      obtain ⟨below, hbelow, rfl⟩ := Option.map_eq_some_iff.mp h
      rw [List.mem_append, ih hbelow]
      constructor
      · rintro (here | ⟨z, hz, path⟩)
        · exact ⟨y, here, .refl⟩
        · obtain ⟨w, hw, edge⟩ := (mem _ z).mp hz
          exact ⟨w, hw, path.head edge⟩
      · rintro ⟨w, hw, path⟩
        obtain rfl | ⟨z, edge, path⟩ := path.cases_head
        · exact .inl hw
        · exact .inr ⟨z, (mem _ z).mpr ⟨w, hw, edge⟩, path⟩

theorem filter_length_lt {nodes : List α} {p q : α → Bool} (hpq : ∀ x, q x = true → p x = true)
    {x : α} (hx : x ∈ nodes) (hp : p x = true) (hq : q x = false) :
    (nodes.filter q).length < (nodes.filter p).length := by
  have sub : nodes.filter q = (nodes.filter p).filter q := by
    rw [List.filter_filter]
    refine List.filter_congr fun y _ => ?_
    cases hy : q y with
    | true => simp [hpq y hy]
    | false => simp
  rw [sub]
  refine Nat.lt_of_le_of_ne (List.length_filter_le _ _) fun e => ?_
  have all := List.length_filter_eq_length_iff.mp e x (List.mem_filter.mpr ⟨hx, hp⟩)
  rw [hq] at all
  cases all

variable [DecidableEq α]

/-- Add the children that are not there yet, round after round. -/
def grow : Nat → List α → List α
  | 0, ids => ids
  | rounds + 1, ids => grow rounds (ids ++ (children ids).filter (· ∉ ids))

theorem grow_invariant {P : List α → Prop}
    (hround : ∀ ids, P ids → P (ids ++ (children ids).filter (· ∉ ids))) {rounds : Nat}
    {ids : List α} (h : P ids) : P (grow children rounds ids) := by
  induction rounds generalizing ids with
  | zero => exact h
  | succ rounds ih => exact ih (hround ids h)

/-- A round for each node that can still be added makes the result closed. -/
theorem grow_closed {nodes : List α} (inside : ∀ ids, ∀ x ∈ children ids, x ∈ nodes)
    {rounds : Nat} {ids : List α} (enough : (nodes.filter (· ∉ ids)).length ≤ rounds) :
    ∀ x ∈ children (grow children rounds ids), x ∈ grow children rounds ids := by
  induction rounds generalizing ids with
  | zero =>
    intro x hx
    have left := List.length_eq_zero_iff.mp (Nat.le_zero.mp enough)
    have known := List.filter_eq_nil_iff.mp left x (inside ids x hx)
    simpa [grow] using known
  | succ rounds ih =>
    by_cases fresh : ∃ x ∈ children ids, x ∉ ids
    · obtain ⟨x, hx, hnew⟩ := fresh
      refine ih ?_
      have fewer : (nodes.filter (· ∉ ids ++ (children ids).filter (· ∉ ids))).length <
          (nodes.filter (· ∉ ids)).length :=
        filter_length_lt (x := x) (by simp +contextual) (inside ids x hx) (by simpa using hnew)
          (by simp [hx, hnew])
      omega
    · have stable : ids ++ (children ids).filter (· ∉ ids) = ids := by
        have : (children ids).filter (· ∉ ids) = [] := by
          rw [List.filter_eq_nil_iff]
          intro x hx
          simpa using fun hnew => fresh ⟨x, hx, hnew⟩
        rw [this, List.append_nil]
      have fixed : ∀ n, grow children n ids = ids := by
        intro n
        induction n with
        | zero => rfl
        | succ n ihn => rw [grow, stable, ihn]
      intro x hx
      rw [fixed] at hx ⊢
      by_contra hnew
      exact fresh ⟨x, hx, hnew⟩

end Closure
