import Mathlib.Combinatorics.Enumerative.DoubleCounting
import Mathlib.Order.Interval.Finset.Nat

/-!
# Candidates

A search that counts up until a candidate is free. A candidate may be refused, which ends it. Among
more distinct candidates than there are names taken one is free, and the search finds the first.
-/

namespace Candidates

variable {α ε : Type*} (candidate : Nat → Except ε α) (taken : Finset α)

/-- The search from a counter on, for a number of rounds. -/
def search [DecidableEq α] : Nat → Nat → Option (Except ε α)
  | 0, _ => none
  | rounds + 1, n =>
    match candidate n with
    | .error e => some (.error e)
    | .ok name => if name ∉ taken then some (.ok name) else search rounds (n + 1)

def Taken (n : Nat) : Prop := ∃ name ∈ taken, candidate n = .ok name

/-- `n` is the first counter from `start` on whose candidate is free. -/
structure FirstFree (start n : Nat) (name : α) : Prop where
  late : start ≤ n
  eq : candidate n = .ok name
  free : name ∉ taken
  before : ∀ m, start ≤ m → m < n → Taken candidate taken m

variable {candidate taken}

theorem FirstFree.next {start n : Nat} {name : α} (first : FirstFree candidate taken start n name)
    (later : start < n) : FirstFree candidate taken (start + 1) n name where
  late := later
  eq := first.eq
  free := first.free
  before m low less := first.before m (by omega) less

/-- The search returns the first free candidate in every number of rounds that reaches it. -/
theorem search_eq [DecidableEq α] {start n rounds : Nat} {name : α}
    (first : FirstFree candidate taken start n name) (enough : n < start + rounds) :
    search candidate taken rounds start = some (.ok name) := by
  induction rounds generalizing start with
  | zero =>
    have late := first.late
    omega
  | succ rounds ih =>
    obtain rfl | later := Nat.eq_or_lt_of_le first.late
    · simp [search, first.eq, first.free]
    · obtain ⟨occupied, mem, eq⟩ := first.before start le_rfl later
      rw [search, eq]
      simp only [mem, not_true_eq_false, if_false]
      exact ih (first.next later) (by omega)

/-- Of more distinct candidates than there are names taken, one is not taken. -/
theorem exists_not_taken {start stop : Nat}
    (distinct : ∀ n m name, candidate n = .ok name → candidate m = .ok name → n = m)
    (more : taken.card < stop - start) :
    ∃ n, start ≤ n ∧ n < stop ∧ ¬Taken candidate taken n := by
  by_contra all
  have each : ∀ n ∈ Finset.Ico start stop, ∃ name ∈ taken, candidate n = .ok name := by
    intro n mem
    obtain ⟨low, high⟩ := Finset.mem_Ico.mp mem
    by_contra free
    exact all ⟨n, low, high, free⟩
  have few := Finset.card_le_card_of_forall_subsingleton (fun n name => candidate n = .ok name) each
    fun name _ n hn m hm => distinct n m name hn.2 hm.2
  rw [Nat.card_Ico] at few
  omega

theorem exists_firstFree {start stop : Nat}
    (ok : ∀ n, start ≤ n → n < stop → ∃ name, candidate n = .ok name)
    (distinct : ∀ n m name, candidate n = .ok name → candidate m = .ok name → n = m)
    (more : taken.card < stop - start) :
    ∃ n name, n < stop ∧ FirstFree candidate taken start n name := by
  classical
  have some_free := exists_not_taken distinct more
  obtain ⟨low, high, free⟩ := Nat.find_spec some_free
  obtain ⟨name, eq⟩ := ok _ low high
  refine ⟨Nat.find some_free, name, high, low, eq, fun mem => free ⟨name, mem, eq⟩, ?_⟩
  intro m above below
  by_contra untaken
  exact Nat.find_min some_free below ⟨above, by omega, untaken⟩

end Candidates
