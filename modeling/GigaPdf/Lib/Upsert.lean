import Mathlib.Data.List.Nodup
import Mathlib.Data.List.Perm.Basic

/-!
# Upserts

A list of pending entries in which a new entry is merged into the first that it belongs to, and
comes last when there is none.
-/

namespace Upsert

variable {α β : Type*} {p : α → Bool} {f : α → α} {new : α}

/-- Change the first entry that satisfies `p`, or append one. -/
def upsert (p : α → Bool) (f : α → α) (new : α) : List α → List α
  | [] => [new]
  | a :: l => if p a then f a :: l else a :: upsert p f new l

attribute [grind] upsert

/-- What was there before stays, but for the first entry that satisfies `p`. -/
theorem mem_upsert {l : List α} {a : α} (mem : a ∈ upsert p f new l) :
    a ∈ l ∨ (∃ b, l.find? p = some b ∧ a = f b) ∨ l.find? p = none ∧ a = new := by
  induction l with
  | nil => exact .inr (.inr ⟨rfl, List.mem_singleton.mp mem⟩)
  | cons b l ih =>
    by_cases here : p b = true
    · rw [upsert, if_pos here] at mem
      obtain rfl | mem := List.mem_cons.mp mem
      · exact .inr (.inl ⟨b, by simp [here], rfl⟩)
      · exact .inl (List.mem_cons_of_mem _ mem)
    · rw [upsert, if_neg here] at mem
      have find : (b :: l).find? p = l.find? p := by simp [here]
      obtain rfl | mem := List.mem_cons.mp mem
      · exact .inl (List.mem_cons_self ..)
      · rw [find]
        obtain old | changed := ih mem
        · exact .inl (List.mem_cons_of_mem _ old)
        · exact .inr changed

theorem mem_upsert_of_not {l : List α} {a : α} (mem : a ∈ l) (other : p a = false) :
    a ∈ upsert p f new l := by
  induction l with
  | nil => cases mem
  | cons b l ih =>
    by_cases here : p b = true
    · obtain rfl | mem := List.mem_cons.mp mem
      · rw [other] at here
        cases here
      · rw [upsert, if_pos here]
        exact List.mem_cons_of_mem _ mem
    · rw [upsert, if_neg here]
      obtain rfl | mem := List.mem_cons.mp mem
      · exact List.mem_cons_self ..
      · exact List.mem_cons_of_mem _ (ih mem)

theorem upsert_of_find?_none {l : List α} (absent : l.find? p = none) :
    upsert p f new l = l ++ [new] := by
  induction l with
  | nil => rfl
  | cons a l ih =>
    have other := List.find?_eq_none.mp absent a (List.mem_cons_self ..)
    rw [List.find?_cons_of_neg other] at absent
    rw [upsert, if_neg other, ih absent, List.cons_append]

/-- Nothing is seen of a change of an entry that `g` does not see. -/
theorem map_upsert_of_find?_some {g : α → β} {l : List α} {a : α} (found : l.find? p = some a)
    (same : g (f a) = g a) : (upsert p f new l).map g = l.map g := by
  induction l with
  | nil => cases found
  | cons b l ih =>
    by_cases here : p b = true
    · rw [List.find?_cons_of_pos here, Option.some.injEq] at found
      subst found
      rw [upsert, if_pos here, List.map_cons, List.map_cons, same]
    · rw [List.find?_cons_of_neg here] at found
      rw [upsert, if_neg here, List.map_cons, List.map_cons, ih found]

/-- The new entry is there when the change gives it too. -/
theorem mem_upsert_self {l : List α} (same : ∀ a, f a = new) : new ∈ upsert p f new l := by
  induction l with
  | nil => exact List.mem_singleton.mpr rfl
  | cons a l ih =>
    rw [upsert]
    split
    · rw [same]
      exact List.mem_cons_self ..
    · exact List.mem_cons_of_mem _ ih

/-- Where the changed or new entry holds one thing more, the list holds one thing more. -/
theorem flatMap_upsert_perm {g : α → List β} {x : β} {l : List α}
    (changed : ∀ a, l.find? p = some a → (g (f a)).Perm (x :: g a))
    (appended : l.find? p = none → g new = [x]) :
    ((upsert p f new l).flatMap g).Perm (x :: l.flatMap g) := by
  induction l with
  | nil =>
    have only : g new = [x] := appended rfl
    rw [upsert, List.flatMap_cons, only]
    exact List.Perm.refl _
  | cons a l ih =>
    by_cases here : p a = true
    · have step := changed a (by simp [here])
      rw [upsert, if_pos here, List.flatMap_cons, List.flatMap_cons]
      exact step.append_right _
    · have find : (a :: l).find? p = l.find? p := by simp [here]
      rw [find] at changed appended
      rw [upsert, if_neg here, List.flatMap_cons, List.flatMap_cons]
      exact ((ih changed appended).append_left (g a)).trans List.perm_middle

/-- A key that the change keeps, and that the new entry shares with no other, stays unique. -/
theorem nodup_map_upsert {key : α → β} {l : List α} (nodup : (l.map key).Nodup)
    (keeps : ∀ a, p a = true → key (f a) = key a)
    (fresh : ∀ a ∈ l, p a = false → key a ≠ key new) :
    ((upsert p f new l).map key).Nodup := by
  induction l with
  | nil => exact List.nodup_singleton _
  | cons a l ih =>
    obtain ⟨absent, rest⟩ := List.nodup_cons.mp nodup
    by_cases here : p a = true
    · rw [upsert, if_pos here, List.map_cons, keeps a here]
      exact nodup
    · have skipped : p a = false := by simpa using here
      rw [upsert, if_neg here, List.map_cons, List.nodup_cons]
      refine ⟨fun mem => ?_, ih rest fun b hb => fresh b (List.mem_cons_of_mem _ hb)⟩
      obtain ⟨b, hb, same⟩ := List.mem_map.mp mem
      obtain old | ⟨c, found, rfl⟩ | ⟨-, rfl⟩ := mem_upsert hb
      · exact absent (List.mem_map.mpr ⟨b, old, same⟩)
      · rw [keeps c (List.find?_some found)] at same
        exact absent (List.mem_map.mpr ⟨c, List.mem_of_find?_eq_some found, same⟩)
      · exact fresh a (List.mem_cons_self ..) skipped same.symm

theorem map_upsert {γ : Type*} {q : γ → Bool} {f' : γ → γ} (g : α → γ) (same : ∀ a, q (g a) = p a)
    (commutes : ∀ a, g (f a) = f' (g a)) (l : List α) :
    (upsert p f new l).map g = upsert q f' (g new) (l.map g) := by
  induction l with
  | nil => rfl
  | cons a l ih =>
    rw [List.map_cons, upsert, upsert, same]
    split
    · rw [List.map_cons, commutes]
    · rw [List.map_cons, ih]

section
variable {q : β → Bool} {f' : β → β} {new' : β} {g : α → Option β} {l : List α}

/-- An upsert among the entries that `g` sees. -/
theorem filterMap_upsert (seen : ∀ a ∈ l, p a = (g a).any q)
    (commutes : ∀ a ∈ l, p a = true → g (f a) = (g a).map f') (added : g new = some new') :
    (upsert p f new l).filterMap g = upsert q f' new' (l.filterMap g) := by
  induction l with
  | nil => simp [upsert, added]
  | cons a l ih =>
    have seen_a := seen a (List.mem_cons_self ..)
    have rest := ih (fun b hb => seen b (List.mem_cons_of_mem _ hb))
      fun b hb => commutes b (List.mem_cons_of_mem _ hb)
    rw [upsert]
    by_cases here : p a = true
    · have changed := commutes a (List.mem_cons_self ..) here
      cases shown : g a with
      | none => simp [shown, here] at seen_a
      | some b =>
        rw [shown, Option.any_some] at seen_a
        rw [shown, Option.map_some] at changed
        rw [if_pos here, List.filterMap_cons_some changed, List.filterMap_cons_some shown, upsert,
          if_pos (seen_a ▸ here)]
    · rw [if_neg here]
      cases shown : g a with
      | none => rw [List.filterMap_cons_none shown, List.filterMap_cons_none shown, rest]
      | some b =>
        rw [shown, Option.any_some] at seen_a
        rw [List.filterMap_cons_some shown, List.filterMap_cons_some shown, upsert,
          if_neg (seen_a ▸ here), rest]

/-- An upsert among the others. -/
theorem filterMap_upsert_of_unseen
    (unseen : ∀ a ∈ l, p a = true → g a = none ∧ g (f a) = none) (added : g new = none) :
    (upsert p f new l).filterMap g = l.filterMap g := by
  induction l with
  | nil => simp [upsert, added]
  | cons a l ih =>
    rw [upsert]
    by_cases here : p a = true
    · obtain ⟨before, after⟩ := unseen a (List.mem_cons_self ..) here
      rw [if_pos here, List.filterMap_cons_none after, List.filterMap_cons_none before]
    · rw [if_neg here, List.filterMap_cons, List.filterMap_cons,
        ih fun b hb => unseen b (List.mem_cons_of_mem _ hb)]

end

end Upsert
