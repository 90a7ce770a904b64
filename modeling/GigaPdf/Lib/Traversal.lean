import Mathlib.Data.List.Forall2

/-!
# Traversals that may fail

`mapM` in `Except`: it succeeds when each item does, and its results stand in the order of the
items.
-/

namespace Traversal

theorem bind_eq_ok_iff {ε α β : Type} {a : Except ε α} {f : α → Except ε β} {b : β} :
    a >>= f = .ok b ↔ ∃ x, a = .ok x ∧ f x = .ok b := by
  cases a with
  | error e =>
    constructor
    · intro same
      cases same
    · rintro ⟨_, same, _⟩
      cases same
  | ok x =>
    constructor
    · exact fun same => ⟨x, rfl, same⟩
    · rintro ⟨_, same, next⟩
      cases same
      exact next

theorem forall_left {α β : Type} {R : α → β → Prop} {P : α → Prop} {as : List α} {bs : List β}
    (related : List.Forall₂ R as bs) (each : ∀ a b, R a b → P a) : ∀ a ∈ as, P a :=
  ((List.forall₂_and_left as bs).mp (related.imp fun a b r => ⟨each a b r, r⟩)).1

theorem map_eq_ok_iff {ε α β : Type} {a : Except ε α} {f : α → β} {b : β} :
    a.map f = .ok b ↔ ∃ x, a = .ok x ∧ f x = b := by
  cases a with
  | error e => simp [Except.map]
  | ok x => simp [Except.map]

theorem mapM_eq_ok_iff {ε α β : Type} {f : α → Except ε β} {as : List α} {bs : List β} :
    as.mapM f = .ok bs ↔ List.Forall₂ (fun a b => f a = .ok b) as bs := by
  induction as generalizing bs with
  | nil =>
    rw [List.mapM_nil, List.forall₂_nil_left_iff]
    constructor
    · intro same
      cases same
      rfl
    · rintro rfl
      rfl
  | cons a as ih =>
    simp only [List.mapM_cons, List.forall₂_cons_left_iff, bind_eq_ok_iff, ih]
    constructor
    · rintro ⟨b, here, bs', others, same⟩
      cases same
      exact ⟨b, bs', here, others, rfl⟩
    · rintro ⟨b, bs', here, others, rfl⟩
      exact ⟨b, here, bs', others, rfl⟩

theorem exists_mapM_eq_ok_iff {ε α β : Type} {f : α → Except ε β} {as : List α} :
    (∃ bs, as.mapM f = .ok bs) ↔ ∀ a ∈ as, ∃ b, f a = .ok b := by
  constructor
  · rintro ⟨bs, ran⟩
    exact forall_left (mapM_eq_ok_iff.mp ran) fun _ b here => ⟨b, here⟩
  · intro each
    simp only [mapM_eq_ok_iff]
    induction as with
    | nil => exact ⟨[], .nil⟩
    | cons a as ih =>
      obtain ⟨b, here⟩ := each a List.mem_cons_self
      obtain ⟨bs, rest⟩ := ih fun a mem => each a (List.mem_cons_of_mem _ mem)
      exact ⟨b :: bs, .cons here rest⟩

/-- What the results contain is told item by item. -/
theorem mem_flatten_iff {α β : Type} {R : α → List β → Prop} {Q : α → β → Prop} {as : List α}
    {bss : List (List β)} (related : List.Forall₂ R as bss)
    (each : ∀ a bs, R a bs → ∀ b, b ∈ bs ↔ Q a b) (b : β) : b ∈ bss.flatten ↔ ∃ a ∈ as, Q a b := by
  induction related with
  | nil => simp
  | cons here _ ih =>
    rw [List.flatten_cons, List.mem_append, each _ _ here, ih]
    simp only [List.mem_cons, exists_eq_or_imp]

/-- What each step keeps, a fold keeps. -/
theorem foldlM_invariant {ε α β : Type} {f : β → α → Except ε β} {P : β → Prop}
    (keeps : ∀ b a b', P b → f b a = .ok b' → P b') {as : List α} {b b' : β} (start : P b)
    (ran : as.foldlM f b = .ok b') : P b' := by
  induction as generalizing b with
  | nil =>
    cases ran
    exact start
  | cons a as ih =>
    rw [List.foldlM_cons, bind_eq_ok_iff] at ran
    obtain ⟨next, step, rest⟩ := ran
    exact ih (keeps b a next start step) rest

end Traversal
