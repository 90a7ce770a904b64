import Mathlib.Data.List.Basic

/-!
# Chains

Lists in which every item is allowed behind the item before it, and the first one where nothing is
before it. An edit touches a few neighbours, so only these decide whether the edited list is a chain
again.
-/

namespace Chains

variable {α β : Type*} (allowed : Option α → α → Prop)

/-- The item before the list, if any, is `before`. -/
def Chained : Option α → List α → Prop
  | _, [] => True
  | before, a :: as => allowed before a ∧ Chained (some a) as

/-- The item that comes before whatever follows the list. -/
def lastOf (before : Option α) : List α → Option α
  | [] => before
  | a :: as => lastOf (some a) as

/-- The head of the list may come behind `before`. -/
def Joins (before : Option α) (as : List α) : Prop :=
  ∀ a ∈ as.head?, allowed before a

variable {allowed}

@[simp] theorem chained_nil (before : Option α) : Chained allowed before [] := trivial

theorem chained_cons {before : Option α} {a : α} {as : List α} :
    Chained allowed before (a :: as) ↔ allowed before a ∧ Chained allowed (some a) as := Iff.rfl

theorem chained_append {before : Option α} {as bs : List α} :
    Chained allowed before (as ++ bs) ↔
      Chained allowed before as ∧ Chained allowed (lastOf before as) bs := by
  induction as generalizing before with
  | nil => simp [lastOf]
  | cons a as ih =>
    rw [List.cons_append, chained_cons, chained_cons, ih, and_assoc]
    rfl

theorem chained_some_iff {a : α} {as : List α} :
    Chained allowed (some a) as ↔ (a :: as).IsChain fun a b => allowed (some a) b := by
  induction as generalizing a with
  | nil => simp
  | cons b as ih => rw [chained_cons, List.isChain_cons_cons, ih]

theorem chained_none_iff {as : List α} :
    Chained allowed none as ↔ Joins allowed none as ∧ as.IsChain fun a b => allowed (some a) b := by
  cases as with
  | nil => simp [Joins]
  | cons a as => rw [chained_cons, chained_some_iff]; simp [Joins]

/-- A chain stays one behind another item exactly when its head does. -/
theorem Chained.rejoin {before : Option α} {as : List α} (chain : Chained allowed before as)
    (before' : Option α) : Chained allowed before' as ↔ Joins allowed before' as := by
  cases as with
  | nil => simp [Joins]
  | cons a as => simp [chained_cons, chain.2, Joins]

/-! ## Inserting and exchanging -/

theorem Chained.insert_iff {before : Option α} {as bs : List α}
    (chain : Chained allowed before (as ++ bs)) (item : α) :
    Chained allowed before (as ++ item :: bs) ↔
      allowed (lastOf before as) item ∧ Joins allowed (some item) bs := by
  obtain ⟨front, back⟩ := chained_append.mp chain
  rw [chained_append, chained_cons, back.rejoin]
  simp [front]

theorem Chained.swap_iff {before : Option α} {as bs : List α} {x y : α}
    (chain : Chained allowed before (as ++ x :: y :: bs)) :
    Chained allowed before (as ++ y :: x :: bs) ↔
      allowed (lastOf before as) y ∧ allowed (some y) x ∧ Joins allowed (some x) bs := by
  obtain ⟨front, -, -, back⟩ := chained_append.mp chain
  rw [chained_append, chained_cons, chained_cons, back.rejoin]
  simp [front]

/-! ## Removing -/

/-- Every kept item directly behind removed ones is allowed behind the last kept one before it. A
gap is open while the items just before were removed. -/
def Bridges (allowed : Option α → α → Prop) (keep : α → Bool) : Option α → Bool → List α → Prop
  | _, _, [] => True
  | last, gap, a :: as =>
    if keep a then (gap = true → allowed last a) ∧ Bridges allowed keep (some a) false as
    else Bridges allowed keep last true as

theorem chained_filter_iff (keep : α → Bool) {before last : Option α} {gap : Bool} {as : List α}
    (chain : Chained allowed before as) (closed : gap = false → before = last) :
    Chained allowed last (as.filter keep) ↔ Bridges allowed keep last gap as := by
  induction as generalizing before last gap with
  | nil => simp [Bridges]
  | cons a as ih =>
    obtain ⟨here, rest⟩ := chain
    rw [List.filter_cons, Bridges]
    split
    · rw [chained_cons, @ih (some a) (some a) false rest fun _ => rfl]
      cases gap with
      | true => simp
      | false => simp [← closed rfl, here]
    · exact @ih (some a) last true rest nofun

/-! ## Changing the items -/

theorem chained_map (f : α → β) (allowed : Option β → β → Prop) {before : Option α}
    {as : List α} :
    Chained allowed (before.map f) (as.map f) ↔
      Chained (fun b a => allowed (b.map f) (f a)) before as := by
  induction as generalizing before with
  | nil => simp
  | cons a as ih => rw [List.map_cons, chained_cons, chained_cons, ← ih]; rfl

/-- On a chain, two conditions that agree on allowed neighbours are the same condition. -/
theorem Chained.congr {P Q : Option α → α → Prop} {before : Option α} {as : List α}
    (chain : Chained allowed before as) (agree : ∀ b a, allowed b a → (P b a ↔ Q b a)) :
    Chained P before as ↔ Chained Q before as := by
  induction as generalizing before with
  | nil => simp
  | cons a as ih => rw [chained_cons, chained_cons, agree _ _ chain.1, ih chain.2]

theorem isChain_congr {R P Q : α → α → Prop} {as : List α} (chain : as.IsChain R)
    (agree : ∀ a b, R a b → (P a b ↔ Q a b)) : as.IsChain P ↔ as.IsChain Q := by
  induction as with
  | nil => simp
  | cons a as ih =>
    cases as with
    | nil => simp
    | cons b as =>
      rw [List.isChain_cons_cons] at chain
      rw [List.isChain_cons_cons, List.isChain_cons_cons, agree _ _ chain.1, ih chain.2]

instance decidableChained [∀ b a, Decidable (allowed b a)] :
    (before : Option α) → (as : List α) → Decidable (Chained allowed before as)
  | _, [] => .isTrue trivial
  | before, a :: as =>
    have := decidableChained (some a) as
    inferInstanceAs (Decidable (allowed before a ∧ Chained allowed (some a) as))

end Chains
