import Mathlib.Data.List.Nodup

/-!
# Buckets

A map from keys to lists that remembers the order in which its keys came, filled by pushing one
value after another, as programs group a list by a key.
-/

/-- The buckets in the order of their keys' first values. -/
abbrev Buckets (κ α : Type*) := List (κ × List α)

namespace Buckets

variable {κ α β : Type*} [DecidableEq κ]

def push (k : κ) (a : α) : Buckets κ α → Buckets κ α
  | [] => [(k, [a])]
  | (k', as) :: rest => if k' = k then (k', as ++ [a]) :: rest else (k', as) :: push k a rest

/-- The values pushed under a key. -/
def get (k : κ) : Buckets κ α → List α
  | [] => []
  | (k', as) :: rest => if k' = k then as else get k rest

attribute [grind] push get

def keys (b : Buckets κ α) : List κ := b.map Prod.fst

theorem get_push (k k' : κ) (a : α) (b : Buckets κ α) :
    get k (push k' a b) = if k' = k then get k b ++ [a] else get k b := by
  induction b with
  | nil => by_cases h : k' = k <;> simp [push, get, h]
  | cons entry rest ih =>
    obtain ⟨k'', as⟩ := entry
    by_cases here : k'' = k'
    · subst here
      by_cases h : k'' = k <;> simp [push, get, h]
    · by_cases h : k'' = k
      · subst h
        have other : k' ≠ k'' := fun e => here e.symm
        simp [push, get, here, other]
      · simp [push, get, here, h, ih]

theorem get_eq_nil {k : κ} {b : Buckets κ α} (absent : k ∉ keys b) : get k b = [] := by
  induction b with
  | nil => rfl
  | cons entry rest ih =>
    obtain ⟨k', as⟩ := entry
    have other : k' ≠ k := fun e => absent (by simp [keys, e])
    have behind : k ∉ keys rest := fun mem => absent (List.mem_cons_of_mem _ mem)
    rw [get, if_neg other, ih behind]

theorem mem_keys_push {k k' : κ} {a : α} {b : Buckets κ α} :
    k ∈ keys (push k' a b) ↔ k = k' ∨ k ∈ keys b := by
  induction b with
  | nil => simp [push, keys]
  | cons entry rest ih =>
    obtain ⟨k'', as⟩ := entry
    by_cases here : k'' = k'
    · simp [push, keys, here]
    · have ih' : k ∈ (push k' a rest).map Prod.fst ↔ k = k' ∨ k ∈ rest.map Prod.fst := ih
      simp only [push, keys, here, if_false, List.map_cons, List.mem_cons, ih']
      tauto

theorem nodup_push {k : κ} {a : α} {b : Buckets κ α} (h : (keys b).Nodup) :
    (keys (push k a b)).Nodup := by
  induction b with
  | nil => simp [push, keys]
  | cons entry rest ih =>
    obtain ⟨k', as⟩ := entry
    obtain ⟨fresh, nodup⟩ := List.nodup_cons.mp h
    by_cases here : k' = k
    · simp only [push, here, if_true]
      rw [← here]
      exact List.nodup_cons.mpr ⟨fresh, nodup⟩
    · simp only [push, here, if_false]
      apply List.nodup_cons.mpr
      refine ⟨fun mem => ?_, ih nodup⟩
      obtain same | mem := mem_keys_push.mp mem
      · exact here same
      · exact fresh mem

/-- The buckets of a list whose entries are pushed in order, or dropped. -/
def collect (entry : β → Option (κ × α)) (l : List β) : Buckets κ α :=
  l.foldl (fun b x => match entry x with | some (k, a) => push k a b | none => b) []

section
variable (entry : β → Option (κ × α))

theorem get_foldl (l : List β) (b : Buckets κ α) (k : κ) :
    get k (l.foldl (fun b x => match entry x with | some (k, a) => push k a b | none => b) b) =
      get k b ++ l.filterMap fun x => (entry x).bind fun e => if e.1 = k then some e.2 else none := by
  induction l generalizing b with
  | nil => simp
  | cons x rest ih =>
    rw [List.foldl_cons, ih]
    cases h : entry x with
    | none => simp [h]
    | some e =>
      obtain ⟨k', a⟩ := e
      by_cases same : k' = k <;> simp [h, get_push, same]

/-- A bucket holds the values pushed under its key, in their order. -/
theorem get_collect (l : List β) (k : κ) :
    get k (collect entry l) =
      l.filterMap fun x => (entry x).bind fun e => if e.1 = k then some e.2 else none := by
  have h := get_foldl entry l [] k
  rw [get, List.nil_append] at h
  exact h

theorem nodup_collect (l : List β) : (keys (collect entry l)).Nodup := by
  have step : ∀ (rest : List β) (b : Buckets κ α), (keys b).Nodup → (keys (rest.foldl
      (fun b x => match entry x with | some (k, a) => push k a b | none => b) b)).Nodup := by
    intro rest
    induction rest with
    | nil => exact fun _ h => h
    | cons x rest ih =>
      intro b h
      rw [List.foldl_cons]
      apply ih
      cases entry x with
      | none => exact h
      | some e => exact nodup_push h
  exact step l [] List.nodup_nil

end

end Buckets
