import Mathlib.Data.List.Basic

/-!
# Searching and replacing

Where a probe stands in a list, which of these places a scan from the left takes without an
overlap, and the list with other content at these places.
-/

namespace Search

variable {α : Type*}

/-- `text.slice(start, stop)` -/
def slice (text : List α) (start stop : Nat) : List α := (text.take stop).drop start

theorem length_slice (text : List α) (start stop : Nat) :
    (slice text start stop).length = min stop text.length - start := by
  rw [slice, List.length_drop, List.length_take]

theorem slice_append_slice (text : List α) {start middle stop : Nat} (low : start ≤ middle)
    (high : middle ≤ stop) : slice text start middle ++ slice text middle stop =
      slice text start stop := by
  have behind : text.drop middle = (text.drop start).drop (middle - start) := by
    rw [List.drop_drop, Nat.add_sub_cancel' low]
  have width : stop - start = (middle - start) + (stop - middle) := by omega
  rw [slice, slice, slice, List.drop_take, List.drop_take, List.drop_take, width, behind,
    List.take_add]

theorem slice_append_drop (text : List α) {start middle : Nat} (low : start ≤ middle) :
    slice text start middle ++ text.drop middle = text.drop start := by
  have whole := slice_append_slice text low (Nat.le_max_left middle text.length)
  have behind : ∀ n, slice text n (max middle text.length) = text.drop n := fun n => by
    rw [slice, List.take_of_length_le (Nat.le_max_right _ _)]
  rwa [behind, behind] at whole

/-! ## Places -/

section
variable [DecidableEq α]

def matchesAt (text probe : List α) (i : Nat) : Bool := probe.isPrefixOf (text.drop i)

/-- The first place at or after a position. -/
def indexOf (text probe : List α) (position : Nat) : Option Nat :=
  (List.range (text.length + 1)).find? fun i =>
    min position text.length ≤ i && matchesAt text probe i

variable {text probe : List α}

theorem matchesAt_iff {i : Nat} :
    matchesAt text probe i = true ↔ slice text i (i + probe.length) = probe := by
  rw [matchesAt, List.isPrefixOf_iff_prefix, List.prefix_iff_eq_take, slice, List.drop_take,
    Nat.add_sub_cancel_left]
  exact eq_comm

theorem bound_of_matchesAt (nonempty : probe ≠ []) {i : Nat}
    (here : matchesAt text probe i = true) : i + probe.length ≤ text.length := by
  have length := congrArg List.length (matchesAt_iff.mp here)
  rw [length_slice] at length
  have := List.length_pos_of_ne_nil nonempty
  omega

theorem matchesAt_bound (nonempty : probe ≠ []) {i : Nat}
    (here : matchesAt text probe i = true) : i < text.length := by
  have := bound_of_matchesAt nonempty here
  have := List.length_pos_of_ne_nil nonempty
  omega

/-- The probe stands nowhere at or after the position. -/
theorem indexOf_eq_none (nonempty : probe ≠ []) {position : Nat}
    (h : indexOf text probe position = none) :
    ∀ i, position ≤ i → matchesAt text probe i = false := by
  intro i low
  by_contra here
  rw [Bool.not_eq_false] at here
  have bound := matchesAt_bound nonempty here
  have nowhere := List.find?_eq_none.mp h i (List.mem_range.mpr (Nat.lt_succ_of_lt bound))
  rw [Bool.and_eq_true, decide_eq_true_iff, not_and] at nowhere
  exact nowhere (Nat.le_trans (Nat.min_le_left _ _) low) here

theorem indexOf_eq_some (nonempty : probe ≠ []) {position start : Nat}
    (h : indexOf text probe position = some start) :
    position ≤ start ∧ matchesAt text probe start = true ∧
      ∀ i, position ≤ i → i < start → matchesAt text probe i = false := by
  obtain ⟨found, before, after, range, earlier⟩ := List.find?_eq_some_iff_append.mp h
  rw [Bool.and_eq_true, decide_eq_true_iff] at found
  obtain ⟨low, here⟩ := found
  have bound := matchesAt_bound nonempty here
  refine ⟨by omega, here, fun i first last => ?_⟩
  have mem : i ∈ before := by
    have listed : i ∈ before ++ start :: after := by
      rw [← range]
      exact List.mem_range.mpr (by omega)
    have sorted : (before ++ start :: after).Pairwise (· < ·) := range ▸ List.pairwise_lt_range
    obtain ⟨-, behind, -⟩ := List.pairwise_append.mp sorted
    obtain mem | mem := List.mem_append.mp listed
    · exact mem
    · obtain rfl | mem := List.mem_cons.mp mem
      · exact absurd last (Nat.lt_irrefl _)
      · exact absurd last (Nat.lt_asymm ((List.pairwise_cons.mp behind).1 i mem))
  have nothing := earlier i mem
  rw [Bool.not_eq_true', Bool.and_eq_false_iff, decide_eq_false_iff_not] at nothing
  exact nothing.resolve_left (by omega)

/-- The places that a test admits. -/
def places (text probe : List α) (admits : Nat → Bool) : List Nat :=
  (List.range text.length).filter fun i => matchesAt text probe i && admits i

section
variable {admits : Nat → Bool}

theorem mem_places (nonempty : probe ≠ []) {i : Nat} :
    i ∈ places text probe admits ↔
      slice text i (i + probe.length) = probe ∧ admits i = true := by
  rw [places, List.mem_filter, List.mem_range, Bool.and_eq_true, matchesAt_iff]
  refine and_iff_right_of_imp fun here => ?_
  exact matchesAt_bound nonempty (matchesAt_iff.mpr here.1)

theorem places_sorted : (places text probe admits).Pairwise (· < ·) :=
  List.pairwise_lt_range.filter _

/-- The places from a position on begin with the one that the search finds, if it is admitted. -/
theorem places_from (admits : Nat → Bool) (nonempty : probe ≠ []) {position start : Nat}
    (h : indexOf text probe position = some start) :
    (places text probe admits).filter (position ≤ ·) =
      (if admits start then [start] else []) ++
        (places text probe admits).filter (start + 1 ≤ ·) := by
  obtain ⟨low, here, none_before⟩ := indexOf_eq_some nonempty h
  have later : (places text probe admits).filter (position ≤ ·) =
      (places text probe admits).filter (start ≤ ·) := by
    refine List.filter_congr fun i mem => ?_
    have found := (Bool.and_eq_true_iff.mp (List.mem_filter.mp mem).2).1
    refine decide_eq_decide.mpr ⟨fun first => ?_, fun first => Nat.le_trans low first⟩
    by_contra before
    rw [none_before i first (Nat.lt_of_not_le before)] at found
    cases found
  rw [later]
  split
  · rename_i admitted
    have mem : start ∈ places text probe admits :=
      (mem_places nonempty).mpr ⟨matchesAt_iff.mp here, admitted⟩
    obtain ⟨before, after, split⟩ := List.append_of_mem mem
    have sorted : (places text probe admits).Pairwise (· < ·) := places_sorted
    rw [split] at sorted ⊢
    obtain ⟨-, behind, across⟩ := List.pairwise_append.mp sorted
    have early : ∀ i ∈ before, i < start := fun i mem => across i mem start List.mem_cons_self
    have late := (List.pairwise_cons.mp behind).1
    have none_early : before.filter (start ≤ ·) = [] ∧ before.filter (start + 1 ≤ ·) = [] := by
      constructor <;> refine List.filter_eq_nil_iff.mpr fun i mem => ?_
      · simpa using early i mem
      · simpa using Nat.lt_succ_of_lt (early i mem)
    have all_late : after.filter (start ≤ ·) = after ∧ after.filter (start + 1 ≤ ·) = after := by
      constructor <;> refine List.filter_eq_self.mpr fun i mem => ?_
      · exact decide_eq_true (Nat.le_of_lt (late i mem))
      · exact decide_eq_true (late i mem)
    simp only [List.filter_append, none_early, List.filter_cons, all_late, Nat.le_refl,
      Nat.not_succ_le_self, decide_true, decide_false, if_true, Bool.false_eq_true, if_false,
      List.nil_append, List.singleton_append]
  · rename_i refused
    refine List.filter_congr fun i mem => ?_
    have admitted := (Bool.and_eq_true_iff.mp (List.mem_filter.mp mem).2).2
    refine decide_eq_decide.mpr ⟨fun first => Nat.lt_of_le_of_ne first ?_, Nat.le_of_succ_le⟩
    rintro rfl
    exact refused admitted

theorem places_from_none (admits : Nat → Bool) (nonempty : probe ≠ []) {position : Nat}
    (h : indexOf text probe position = none) :
    (places text probe admits).filter (position ≤ ·) = [] := by
  refine List.filter_eq_nil_iff.mpr fun i mem first => ?_
  have found := (Bool.and_eq_true_iff.mp (List.mem_filter.mp mem).2).1
  rw [indexOf_eq_none nonempty h i (of_decide_eq_true first)] at found
  cases found

end

end

/-! ## Places that do not overlap -/

/-- The places that a scan from the left takes: each begins where the last one taken has ended, or
later. -/
def greedy (width : Nat) : Nat → List Nat → List Nat
  | _, [] => []
  | limit, i :: places =>
    if limit ≤ i then i :: greedy width (i + width) places else greedy width limit places

theorem greedy_sublist (width : Nat) : ∀ (limit : Nat) (places : List Nat),
    (greedy width limit places).Sublist places := by
  intro limit places
  induction places generalizing limit with
  | nil => exact List.Sublist.refl _
  | cons i places ih =>
    rw [greedy]
    split
    · exact (ih _).cons_cons i
    · exact (ih _).cons i

/-- The scan takes the next place, and what it takes then does not depend on those before. -/
theorem greedy_eq {width : Nat} (wide : 0 < width) (limit : Nat) (places : List Nat) :
    greedy width limit places = match places.find? (limit ≤ ·) with
      | none => []
      | some i => i :: greedy width (i + width) places := by
  induction places with
  | nil => rfl
  | cons i places ih =>
    rw [greedy, List.find?_cons]
    by_cases low : limit ≤ i
    · have beyond : ¬i + width ≤ i := by omega
      simp only [low, if_true, decide_true, greedy, beyond, if_false]
    · simp only [low, if_false, decide_false, ih]
      cases found : places.find? (limit ≤ ·) with
      | none => rfl
      | some j =>
        have later : limit ≤ j := by simpa using List.find?_some found
        have beyond : ¬j + width ≤ i := by omega
        simp only [greedy, beyond, if_false]

theorem greedy_of_nil {width limit : Nat} (wide : 0 < width) {places : List Nat}
    (next : places.filter (limit ≤ ·) = []) : greedy width limit places = [] := by
  rw [greedy_eq wide, ← List.head?_filter, next]
  rfl

theorem greedy_of_cons {width limit i : Nat} (wide : 0 < width) {places rest : List Nat}
    (next : places.filter (limit ≤ ·) = i :: rest) :
    greedy width limit places = i :: greedy width (i + width) places := by
  rw [greedy_eq wide, ← List.head?_filter, next]
  rfl

theorem greedy_congr {limit limit' : Nat} (width : Nat) (wide : 0 < width) {places : List Nat}
    (next : places.filter (limit ≤ ·) = places.filter (limit' ≤ ·)) :
    greedy width limit places = greedy width limit' places := by
  rw [greedy_eq wide limit, greedy_eq wide limit', ← List.head?_filter, ← List.head?_filter, next]

theorem greedy_low {width limit : Nat} {places : List Nat} :
    ∀ i ∈ greedy width limit places, limit ≤ i := by
  induction places generalizing limit with
  | nil => exact nofun
  | cons j places ih =>
    rw [greedy]
    split
    · rename_i low
      intro i mem
      obtain rfl | mem := List.mem_cons.mp mem
      · exact low
      · exact Nat.le_trans low (Nat.le_of_add_right_le (ih i mem))
    · exact ih

theorem greedy_separate (width limit : Nat) (places : List Nat) :
    (greedy width limit places).Pairwise fun i j => i + width ≤ j := by
  induction places generalizing limit with
  | nil => exact List.Pairwise.nil
  | cons i places ih =>
    rw [greedy]
    split
    · exact List.pairwise_cons.mpr ⟨fun j mem => greedy_low j mem, ih _⟩
    · exact ih _

/-! ## Other content at some places -/

/-- What lies between the places. -/
def cut (text : List α) (width : Nat) : Nat → List Nat → List (List α)
  | start, [] => [text.drop start]
  | start, i :: places => slice text start i :: cut text width (i + width) places

def replaceAt (text replacement : List α) (width start : Nat) (places : List Nat) : List α :=
  replacement.intercalate (cut text width start places)

theorem length_cut (text : List α) (width start : Nat) (places : List Nat) :
    (cut text width start places).length = places.length + 1 := by
  induction places generalizing start with
  | nil => rfl
  | cons i places ih => rw [cut, List.length_cons, ih, List.length_cons]

theorem replaceAt_nil (text replacement : List α) (width start : Nat) :
    replaceAt text replacement width start [] = text.drop start := by
  rw [replaceAt, cut, List.intercalate_singleton]

theorem replaceAt_cons (text replacement : List α) (width start i : Nat) (places : List Nat) :
    replaceAt text replacement width start (i :: places) =
      slice text start i ++ replacement ++ replaceAt text replacement width (i + width) places := by
  have some_left : cut text width (i + width) places ≠ [] := by
    rw [← List.length_pos_iff, length_cut]
    exact Nat.succ_pos _
  rw [replaceAt, replaceAt, cut, List.intercalate_cons_of_ne_nil some_left]

/-- What lies before every place is kept. -/
theorem slice_append_replaceAt (text replacement : List α) (width : Nat) {start middle : Nat}
    (low : start ≤ middle) {places : List Nat} (high : ∀ i ∈ places, middle ≤ i) :
    slice text start middle ++ replaceAt text replacement width middle places =
      replaceAt text replacement width start places := by
  cases places with
  | nil => rw [replaceAt_nil, replaceAt_nil, slice_append_drop text low]
  | cons i places =>
    rw [replaceAt_cons, replaceAt_cons, ← List.append_assoc, ← List.append_assoc,
      slice_append_slice text low (high i List.mem_cons_self)]

/-- With its own content at the places, a text is as it was. -/
theorem replaceAt_self {text piece : List α} {width start : Nat} {places : List Nat}
    (low : ∀ i ∈ places, start ≤ i) (separate : places.Pairwise fun i j => i + width ≤ j)
    (own : ∀ i ∈ places, slice text i (i + width) = piece) :
    replaceAt text piece width start places = text.drop start := by
  induction places generalizing start with
  | nil => exact replaceAt_nil text piece width start
  | cons i places ih =>
    obtain ⟨behind, rest⟩ := List.pairwise_cons.mp separate
    have here := low i List.mem_cons_self
    rw [replaceAt_cons, ih behind rest fun j mem => own j (List.mem_cons_of_mem i mem),
      ← own i List.mem_cons_self, List.append_assoc,
      slice_append_drop text (Nat.le_add_right i width), slice_append_drop text here]

end Search
