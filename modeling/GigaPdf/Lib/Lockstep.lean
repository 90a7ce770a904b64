import Mathlib.Data.List.Forall2
import Mathlib.Data.List.InsertIdx

/-!
# Lists in lockstep

Indices as Python reads them: a negative one counts from the end, and an insertion takes the
nearest place that there is. Two lists that are related entry by entry stay so as long as both are
edited in the same way.
-/

namespace Lockstep

variable {α β : Type*}

/-- Where an insertion puts its entry. -/
def slot (length : Nat) (i : Int) : Nat :=
  if 0 ≤ i then min i.toNat length else (length + i).toNat

/-- The entry that an index means, if there is one. -/
def position (length : Nat) (i : Int) : Option Nat :=
  if 0 ≤ i then if i < length then some i.toNat else none
  else if 0 ≤ length + i then some (length + i).toNat else none

def insertAt (i : Int) (a : α) (l : List α) : List α := l.insertIdx (slot l.length i) a

def getAt (i : Int) (l : List α) : Option α := (position l.length i).bind (l[·]?)

def eraseAt (i : Int) (l : List α) : Option (List α) := (position l.length i).map l.eraseIdx

def modifyAt (i : Int) (f : α → α) (l : List α) : Option (List α) :=
  (position l.length i).map fun k => l.modify k f

def select (indices : List Int) (l : List α) : Option (List α) := indices.mapM (getAt · l)

theorem slot_le (length : Nat) (i : Int) : slot length i ≤ length := by
  rw [slot]
  split <;> omega

theorem position_eq_some {length : Nat} {i : Int} (low : 0 ≤ i) (high : i < length) :
    position length i = some i.toNat := by
  rw [position, if_pos low, if_pos high]

/-- Numbers that start at 1. -/
theorem position_number {length i : Nat} (bound : i < length) :
    position length ((i + 1 : Int) - 1) = some i := by
  rw [position_eq_some (by omega) (by omega)]
  congr 1
  omega

theorem length_insertAt (i : Int) (a : α) (l : List α) :
    (insertAt i a l).length = l.length + 1 :=
  List.length_insertIdx_of_le_length (slot_le l.length i) a

theorem length_modifyAt {i : Int} {f : α → α} {l l' : List α}
    (modified : modifyAt i f l = some l') : l'.length = l.length := by
  obtain ⟨k, -, rfl⟩ := Option.map_eq_some_iff.mp modified
  exact List.length_modify f l k

theorem length_select {indices : List Int} {l xs : List α} (selected : select indices l = some xs) :
    xs.length = indices.length := by
  induction indices generalizing xs with
  | nil =>
    cases selected
    rfl
  | cons i indices ih =>
    simp only [select, List.mapM_cons, Option.bind_eq_bind, Option.bind_eq_some_iff] at selected
    obtain ⟨a, -, ys, rest, same⟩ := selected
    cases same
    rw [List.length_cons, List.length_cons, ih rest]

/-! ## The same edit on both sides -/

section
variable {R : α → β → Prop} {l : List α} {l' : List β}

theorem forall₂_insertIdx (related : List.Forall₂ R l l') {a : α} {b : β} (new : R a b) (k : Nat) :
    List.Forall₂ R (l.insertIdx k a) (l'.insertIdx k b) := by
  induction related generalizing k with
  | nil =>
    cases k with
    | zero => exact .cons new .nil
    | succ k => exact .nil
  | cons head tail ih =>
    cases k with
    | zero => exact .cons new (.cons head tail)
    | succ k => exact .cons head (ih k)

theorem forall₂_eraseIdx (related : List.Forall₂ R l l') (k : Nat) :
    List.Forall₂ R (l.eraseIdx k) (l'.eraseIdx k) := by
  induction related generalizing k with
  | nil => exact .nil
  | cons head tail ih =>
    cases k with
    | zero => exact tail
    | succ k => exact .cons head (ih k)

theorem forall₂_modify (related : List.Forall₂ R l l') {f : α → α} {g : β → β}
    (kept : ∀ a b, R a b → R (f a) (g b)) (k : Nat) :
    List.Forall₂ R (l.modify k f) (l'.modify k g) := by
  induction related generalizing k with
  | nil => cases k <;> exact .nil
  | cons head tail ih =>
    cases k with
    | zero => exact .cons (kept _ _ head) tail
    | succ k => exact .cons head (ih k)

theorem rel_getElem? (related : List.Forall₂ R l l') (k : Nat) :
    Option.Rel R (l[k]? : Option α) (l'[k]? : Option β) := by
  induction related generalizing k with
  | nil => exact .none
  | cons head tail ih =>
    cases k with
    | zero => exact .some head
    | succ k => exact ih k

theorem forall₂_insertAt (related : List.Forall₂ R l l') {a : α} {b : β} (new : R a b) (i : Int) :
    List.Forall₂ R (insertAt i a l) (insertAt i b l') := by
  rw [insertAt, insertAt, related.length_eq]
  exact forall₂_insertIdx related new _

theorem rel_getAt (related : List.Forall₂ R l l') (i : Int) :
    Option.Rel R (getAt i l) (getAt i l') := by
  rw [getAt, getAt, related.length_eq]
  cases position l'.length i with
  | none => exact .none
  | some k => exact rel_getElem? related k

theorem rel_eraseAt (related : List.Forall₂ R l l') (i : Int) :
    Option.Rel (List.Forall₂ R) (eraseAt i l) (eraseAt i l') := by
  rw [eraseAt, eraseAt, related.length_eq]
  cases position l'.length i with
  | none => exact .none
  | some k => exact .some (forall₂_eraseIdx related k)

theorem rel_modifyAt (related : List.Forall₂ R l l') {f : α → α} {g : β → β}
    (kept : ∀ a b, R a b → R (f a) (g b)) (i : Int) :
    Option.Rel (List.Forall₂ R) (modifyAt i f l) (modifyAt i g l') := by
  rw [modifyAt, modifyAt, related.length_eq]
  cases position l'.length i with
  | none => exact .none
  | some k => exact .some (forall₂_modify related kept k)

theorem rel_select (related : List.Forall₂ R l l') (indices : List Int) :
    Option.Rel (List.Forall₂ R) (select indices l) (select indices l') := by
  induction indices with
  | nil => exact .some .nil
  | cons i indices ih =>
    rw [select, select] at ih ⊢
    rw [List.mapM_cons, List.mapM_cons]
    have first := rel_getAt related i
    generalize getAt i l = x, getAt i l' = y at first
    generalize indices.mapM (getAt · l) = xs, indices.mapM (getAt · l') = ys at ih
    cases first with
    | none => exact .none
    | some head =>
      cases ih with
      | none => exact .none
      | some tail => exact .some (.cons head tail)

/-- One side is rewritten along its indices, as far as the relation does not mind. -/
theorem forall₂_mapIdx (related : List.Forall₂ R l l') {f : Nat → α → α}
    (kept : ∀ i a b, R a b → R (f i a) b) : List.Forall₂ R (l.mapIdx f) l' := by
  induction related generalizing f with
  | nil => exact .nil
  | cons head tail ih =>
    rw [List.mapIdx_cons]
    exact .cons (kept 0 _ _ head) (ih fun i => kept (i + 1))

end

end Lockstep
