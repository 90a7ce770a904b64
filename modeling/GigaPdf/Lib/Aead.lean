import Mathlib.Data.List.Nodup

/-!
# Authenticated encryption

An ideal cipher keeps what it has sealed, and opens a ciphertext only with the key, the nonce and
the associated data that it was sealed with.
-/

namespace Aead

structure Sealed (K N A P C : Type) where
  key : K
  nonce : N
  associatedData : A
  plaintext : P
  ciphertext : C
deriving DecidableEq

variable {K N A P C : Type} {log entries : List (Sealed K N A P C)}

/-- No nonce is in the log twice. -/
def FreshNonces (log : List (Sealed K N A P C)) : Prop :=
  (log.map Sealed.nonce).Nodup

theorem FreshNonces.append (fresh : FreshNonces log) (fresh' : FreshNonces entries)
    (unused : ∀ s ∈ log, ∀ s' ∈ entries, s.nonce ≠ s'.nonce) : FreshNonces (log ++ entries) := by
  rw [FreshNonces, List.map_append, List.nodup_append]
  refine ⟨fresh, fresh', ?_⟩
  intro n mem n' mem'
  obtain ⟨s, sMem, rfl⟩ := List.mem_map.mp mem
  obtain ⟨s', sMem', rfl⟩ := List.mem_map.mp mem'
  exact unused s sMem s' sMem'

/-- A nonce names the call. -/
theorem FreshNonces.eq_of_nonce (fresh : FreshNonces log) {s s' : Sealed K N A P C}
    (mem : s ∈ log) (mem' : s' ∈ log) (same : s.nonce = s'.nonce) : s = s' :=
  List.inj_on_of_nodup_map fresh mem mem' same

variable [DecidableEq K] [DecidableEq N] [DecidableEq A] [DecidableEq C]

def opened (log : List (Sealed K N A P C)) (key : K) (nonce : N) (associatedData : A)
    (ciphertext : C) : Option P :=
  (log.find? fun s => s.key = key ∧ s.nonce = nonce ∧ s.associatedData = associatedData ∧
    s.ciphertext = ciphertext).map Sealed.plaintext

theorem opened_eq_some_iff (fresh : FreshNonces log) {key : K} {nonce : N} {associatedData : A}
    {ciphertext : C} {plaintext : P} :
    opened log key nonce associatedData ciphertext = some plaintext ↔
      ⟨key, nonce, associatedData, plaintext, ciphertext⟩ ∈ log := by
  constructor
  · intro h
    obtain ⟨s, found, rfl⟩ := Option.map_eq_some_iff.mp h
    have fits := List.find?_some found
    simp only [decide_eq_true_eq] at fits
    obtain ⟨rfl, rfl, rfl, rfl⟩ := fits
    exact List.mem_of_find?_eq_some found
  · intro mem
    cases found : log.find? fun s => s.key = key ∧ s.nonce = nonce ∧
        s.associatedData = associatedData ∧ s.ciphertext = ciphertext with
    | none =>
      have missed := List.find?_eq_none.mp found _ mem
      simp at missed
    | some s =>
      have same := List.find?_some found
      simp only [decide_eq_true_eq] at same
      have eq := fresh.eq_of_nonce (List.mem_of_find?_eq_some found) mem same.2.1
      rw [opened, found, eq]
      rfl

end Aead
