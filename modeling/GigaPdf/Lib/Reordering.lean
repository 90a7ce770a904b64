import GigaPdf.Lib.Runs
import Mathlib.Data.List.InsertIdx
import Mathlib.Data.List.Nodup
import Mathlib.Data.List.Perm.Basic

/-!
# Moves to either end of a list

A move takes an entry to the end or to the start of its list. Programs name the entry by its
position, people by itself; a batch of positions that were read before the batch means the same
as the batch of entries as long as each entry is still at its position. Where an entry is after
some moves is the number of entries that precede it, which the moves before tell.
-/

namespace Reordering

variable {α : Type*} [DecidableEq α]

/-- Move the entry at a position to the end (`true`) or to the start. -/
def moveAt (i : Nat) (toEnd : Bool) (l : List α) : List α :=
  match l[i]? with
  | none => l
  | some a => if toEnd then l.eraseIdx i ++ [a] else a :: l.eraseIdx i

def moveAll (moves : List (Nat × Bool)) (l : List α) : List α :=
  moves.foldl (fun l m => moveAt m.1 m.2 l) l

/-- Move an entry, wherever it is. -/
def moveItem (a : α) (toEnd : Bool) (l : List α) : List α :=
  if a ∈ l then if toEnd then l.erase a ++ [a] else a :: l.erase a else l

def moveItems (moves : List (α × Bool)) (l : List α) : List α :=
  moves.foldl (fun l m => moveItem m.1 m.2 l) l

theorem moveAt_eq_moveItem {l : List α} (nodup : l.Nodup) {i : Nat} {a : α} (here : l[i]? = some a)
    (toEnd : Bool) : moveAt i toEnd l = moveItem a toEnd l := by
  obtain ⟨bound, rfl⟩ := List.getElem?_eq_some_iff.mp here
  have erase : l.erase l[i] = l.eraseIdx i := nodup.erase_getElem i bound
  rw [moveAt, here, moveItem, if_pos (List.getElem_mem bound), erase]

theorem moveItem_perm (a : α) (toEnd : Bool) (l : List α) : (moveItem a toEnd l).Perm l := by
  rw [moveItem]
  split
  · rename_i mem
    split
    · exact (List.perm_append_singleton a (l.erase a)).trans (List.perm_cons_erase mem).symm
    · exact (List.perm_cons_erase mem).symm
  · exact List.Perm.refl l

theorem moveItems_perm (moves : List (α × Bool)) (l : List α) : (moveItems moves l).Perm l := by
  induction moves generalizing l with
  | nil => exact List.Perm.refl l
  | cons m moves ih => exact (ih (moveItem m.1 m.2 l)).trans (moveItem_perm m.1 m.2 l)

omit [DecidableEq α] in
theorem map_moveAt {β : Type*} (g : α → β) (i : Nat) (toEnd : Bool) (l : List α) :
    (moveAt i toEnd l).map g = moveAt i toEnd (l.map g) := by
  rw [moveAt, moveAt, List.getElem?_map]
  cases l[i]? with
  | none => rfl
  | some a => cases toEnd <;> simp [List.eraseIdx_map]

/-! ## What precedes what -/

/-- What precedes what after a move: the entry that was moved comes last or first. -/
def afterMove (m : α × Bool) (r : α → α → Bool) (a b : α) : Bool :=
  if a = m.1 then !m.2 && b ≠ m.1 else if b = m.1 then m.2 else r a b

def precedes (r : α → α → Bool) (moves : List (α × Bool)) : α → α → Bool :=
  moves.foldl (fun r m => afterMove m r) r

/-- Nothing precedes what precedes it. -/
def Asymm (r : α → α → Bool) : Prop := ∀ a b, r a b = true → r b a = false

theorem afterMove_asymm {r : α → α → Bool} (asymm : Asymm r) (m : α × Bool) :
    Asymm (afterMove m r) := by
  intro a b before
  obtain ⟨x, toEnd⟩ := m
  by_cases ha : a = x
  · by_cases hb : b = x
    · simp [afterMove, ha, hb] at before
    · simp only [afterMove, ha, hb, if_true, if_false, ne_eq, not_false_eq_true, decide_true,
        Bool.and_true, Bool.not_eq_true'] at before ⊢
      exact before
  · by_cases hb : b = x
    · simp only [afterMove, ha, hb, if_true, if_false] at before ⊢
      simp [before]
    · simp only [afterMove, ha, hb, if_false] at before ⊢
      exact asymm a b before

/-- A move keeps a list in order. -/
theorem pairwise_moveItem {r : α → α → Bool} {l : List α} (nodup : l.Nodup)
    (sorted : l.Pairwise fun a b => r a b = true) (m : α × Bool) :
    (moveItem m.1 m.2 l).Pairwise fun a b => afterMove m r a b = true := by
  obtain ⟨x, toEnd⟩ := m
  have others : ∀ {l' : List α}, l'.Sublist l → x ∉ l' →
      l'.Pairwise fun a b => afterMove (x, toEnd) r a b = true := by
    intro l' sub absent
    apply (sorted.sublist sub).imp_of_mem
    intro a b ha hb before
    have other : a ≠ x := fun e => absent (e ▸ ha)
    have other' : b ≠ x := fun e => absent (e ▸ hb)
    rw [afterMove, if_neg other, if_neg other']
    exact before
  rw [moveItem]
  split
  · have absent : x ∉ l.erase x := nodup.not_mem_erase
    have rest := others List.erase_sublist absent
    cases toEnd with
    | true =>
      rw [if_pos rfl]
      apply List.pairwise_append.mpr
      refine ⟨rest, List.pairwise_singleton _ _, fun a ha b hb => ?_⟩
      rw [List.mem_singleton.mp hb]
      have other : a ≠ x := fun e => absent (e ▸ ha)
      simp [afterMove, other]
    | false =>
      rw [if_neg Bool.false_ne_true]
      apply List.pairwise_cons.mpr
      refine ⟨fun b hb => ?_, rest⟩
      have other : b ≠ x := fun e => absent (e ▸ hb)
      simp [afterMove, other]
  · exact others (List.Sublist.refl l) ‹x ∉ l›

omit [DecidableEq α] in
/-- In a list in order an entry stands behind as many entries as precede it. -/
theorem getElem?_eq_some_iff_countP {r : α → α → Bool} (asymm : Asymm r) {l : List α}
    (sorted : l.Pairwise fun a b => r a b = true) {i : Nat} {a : α} :
    l[i]? = some a ↔ a ∈ l ∧ l.countP (r · a) = i := by
  have counted : ∀ front back, l = front ++ a :: back → l.countP (r · a) = front.length := by
    intro front back split
    rw [split] at sorted
    obtain ⟨-, behind, before⟩ := List.pairwise_append.mp sorted
    have self : r a a = false := by
      cases h : r a a with
      | false => rfl
      | true => exact absurd h (by simp [asymm a a h])
    have front_count : front.countP (r · a) = front.length :=
      List.countP_eq_length.mpr fun x hx => before x hx a (List.mem_cons_self ..)
    have back_count : back.countP (r · a) = 0 := by
      apply List.countP_eq_zero.mpr
      intro x hx
      have after := (List.pairwise_cons.mp behind).1 x hx
      simp [asymm a x after]
    rw [split, List.countP_append, List.countP_cons, front_count, back_count]
    simp [self]
  constructor
  · intro here
    obtain ⟨bound, rfl⟩ := List.getElem?_eq_some_iff.mp here
    refine ⟨List.getElem_mem bound, ?_⟩
    have split : l = l.take i ++ l[i] :: l.drop (i + 1) := by
      rw [List.getElem_cons_drop, List.take_append_drop]
    rw [counted _ _ split, List.length_take]
    omega
  · rintro ⟨mem, rfl⟩
    obtain ⟨front, back, split⟩ := List.append_of_mem mem
    rw [counted _ _ split, split]
    simp

/-! ## Batches of positions -/

/-- Every move of the batch finds the entry that it is named after at its position. -/
def Hits (moves : List (Nat × Bool)) (l : List Nat) : Prop :=
  ∀ earlier m later, moves = earlier ++ m :: later → (moveAll earlier l)[m.1]? = some m.1

/-- Before every move of the batch as many entries precede its entry as its position says. -/
def InPlace (r : Nat → Nat → Bool) (moves : List (Nat × Bool)) (l : List Nat) : Prop :=
  ∀ earlier m later, moves = earlier ++ m :: later →
    m.1 ∈ l ∧ l.countP (precedes r earlier · m.1) = m.1

theorem hits_nil {l : List Nat} : Hits [] l := by
  intro earlier m later split
  cases earlier <;> cases split

theorem hits_cons {m : Nat × Bool} {moves : List (Nat × Bool)} {l : List Nat} :
    Hits (m :: moves) l ↔ l[m.1]? = some m.1 ∧ Hits moves (moveAt m.1 m.2 l) :=
  Runs.forall_split_cons

theorem inPlace_cons {r : Nat → Nat → Bool} {m : Nat × Bool} {moves : List (Nat × Bool)}
    {l : List Nat} :
    InPlace r (m :: moves) l ↔
      (m.1 ∈ l ∧ l.countP (r · m.1) = m.1) ∧ InPlace (afterMove m r) moves l :=
  Runs.forall_split_cons

theorem InPlace.perm {r : Nat → Nat → Bool} {moves : List (Nat × Bool)} {l l' : List Nat}
    (perm : l.Perm l') : InPlace r moves l ↔ InPlace r moves l' := by
  have one : ∀ {earlier : List (Nat × Bool)} {m : Nat × Bool},
      (m.1 ∈ l ∧ l.countP (precedes r earlier · m.1) = m.1) ↔
        (m.1 ∈ l' ∧ l'.countP (precedes r earlier · m.1) = m.1) := by
    intro earlier m
    rw [perm.mem_iff, perm.countP_eq]
  constructor
  · intro all earlier m later split
    exact one.mp (all earlier m later split)
  · intro all earlier m later split
    exact one.mpr (all earlier m later split)

/-- **A batch of positions hits its entries just when every entry is counted at its position.** -/
theorem hits_iff_inPlace {r : Nat → Nat → Bool} (asymm : Asymm r) {moves : List (Nat × Bool)}
    {l : List Nat} (nodup : l.Nodup) (sorted : l.Pairwise fun a b => r a b = true) :
    Hits moves l ↔ InPlace r moves l := by
  induction moves generalizing r l with
  | nil =>
    have none_split : ∀ {earlier later : List (Nat × Bool)} {m : Nat × Bool},
        [] ≠ earlier ++ m :: later := fun {earlier} => by cases earlier <;> simp
    constructor
    · intro _ earlier m later split
      exact absurd split none_split
    · intro _ earlier m later split
      exact absurd split none_split
  | cons m moves ih =>
    rw [hits_cons, inPlace_cons, getElem?_eq_some_iff_countP asymm sorted]
    apply and_congr_right
    intro counted
    have here := (getElem?_eq_some_iff_countP asymm sorted).mpr counted
    have perm := moveItem_perm m.1 m.2 l
    rw [moveAt_eq_moveItem nodup here, ih (afterMove_asymm asymm m) (perm.nodup_iff.mpr nodup)
      (pairwise_moveItem nodup sorted m)]
    exact InPlace.perm perm

/-- A batch that hits its entries moves them. -/
theorem Hits.moveAll_eq {moves : List (Nat × Bool)} {l : List Nat} (nodup : l.Nodup)
    (hits : Hits moves l) : moveAll moves l = moveItems moves l := by
  induction moves generalizing l with
  | nil => rfl
  | cons m moves ih =>
    obtain ⟨here, rest⟩ := hits_cons.mp hits
    rw [moveAt_eq_moveItem nodup here] at rest
    have step : moveAll (m :: moves) l = moveAll moves (moveAt m.1 m.2 l) := rfl
    rw [step, moveAt_eq_moveItem nodup here]
    exact ih ((moveItem_perm m.1 m.2 l).nodup_iff.mpr nodup) rest

end Reordering
