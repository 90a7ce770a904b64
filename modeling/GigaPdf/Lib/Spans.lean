import Mathlib.Algebra.Order.Ring.Int
import Mathlib.Data.List.Chain
import Mathlib.Data.List.Induction
import Mathlib.Data.List.Pairwise

/-!
# Spans

Half-open spans of the integers that carry a value. Entries with increasing indices are put
together into the fewest spans: an entry prolongs the last span when it follows it and has its
value.
-/

/-- The indices from `start` on that are less than `stop`. -/
structure Span (σ : Type*) where
  start : Int
  stop : Int
  value : σ
deriving DecidableEq

def Span.Covers {σ : Type*} (s : Span σ) (i : Int) : Prop := s.start ≤ i ∧ i < s.stop

instance {σ : Type*} (s : Span σ) (i : Int) : Decidable (s.Covers i) :=
  inferInstanceAs (Decidable (_ ∧ _))

namespace Spans

variable {σ : Type*}

/-- The spans are not empty and do not overlap, and none can be prolonged by the next. -/
structure Maximal (spans : List (Span σ)) : Prop where
  nonempty : ∀ s ∈ spans, s.start < s.stop
  ordered : spans.Pairwise fun s t => s.stop ≤ t.start
  apart : spans.IsChain fun s t => s.stop = t.start → s.value ≠ t.value

/-- The spans hold the entries. -/
def Holds (spans : List (Span σ)) (entries : List (Int × σ)) : Prop :=
  ∀ i v, (∃ s ∈ spans, s.Covers i ∧ s.value = v) ↔ (i, v) ∈ entries

variable {spans before : List (Span σ)} {entries : List (Int × σ)} {s : Span σ} {i : Int} {v : σ}

theorem mem_append_singleton {t : Span σ} : t ∈ spans ++ [s] ↔ t ∈ spans ∨ t = s := by
  rw [List.mem_append, List.mem_singleton]

/-- A span that begins behind the others. -/
theorem Maximal.append (maximal : Maximal spans) (nonempty : s.start < s.stop)
    (behind : ∀ t ∈ spans, t.stop ≤ s.start)
    (other : ∀ t, spans.getLast? = some t → t.stop = s.start → t.value ≠ s.value) :
    Maximal (spans ++ [s]) where
  nonempty := by
    intro t mem
    obtain mem | rfl := mem_append_singleton.mp mem
    · exact maximal.nonempty t mem
    · exact nonempty
  ordered := by
    apply List.pairwise_append.mpr
    refine ⟨maximal.ordered, List.pairwise_singleton _ _, ?_⟩
    intro t mem u last
    rw [List.mem_singleton.mp last]
    exact behind t mem
  apart := by
    apply List.isChain_append.mpr
    refine ⟨maximal.apart, List.isChain_singleton _, ?_⟩
    intro t last u first
    cases first
    exact other t last

theorem Maximal.prolong {stop : Int} (maximal : Maximal (before ++ [s])) (longer : s.stop ≤ stop) :
    Maximal (before ++ [{ s with stop := stop }]) where
  nonempty := by
    intro t mem
    obtain mem | rfl := mem_append_singleton.mp mem
    · exact maximal.nonempty t (List.mem_append_left _ mem)
    · exact (maximal.nonempty s (by simp)).trans_le longer
  ordered := by
    obtain ⟨ordered, -, behind⟩ := List.pairwise_append.mp maximal.ordered
    apply List.pairwise_append.mpr
    refine ⟨ordered, List.pairwise_singleton _ _, ?_⟩
    intro t mem u last
    rw [List.mem_singleton.mp last]
    exact behind t mem s (List.mem_singleton.mpr rfl)
  apart := by
    obtain ⟨apart, -, border⟩ := List.isChain_append.mp maximal.apart
    apply List.isChain_append.mpr
    refine ⟨apart, List.isChain_singleton _, ?_⟩
    intro t last u first
    cases first
    exact border t last s rfl

theorem Holds.append (holds : Holds spans entries) :
    Holds (spans ++ [⟨i, i + 1, v⟩]) (entries ++ [(i, v)]) := by
  intro j w
  rw [List.mem_append, ← holds, List.mem_singleton, Prod.mk.injEq]
  constructor
  · rintro ⟨t, mem, covers, rfl⟩
    obtain mem | rfl := mem_append_singleton.mp mem
    · exact .inl ⟨t, mem, covers, rfl⟩
    · obtain ⟨low, high⟩ := covers
      exact .inr ⟨by simp only at low high; omega, rfl⟩
  · rintro (⟨t, mem, covers, rfl⟩ | ⟨rfl, rfl⟩)
    · exact ⟨t, List.mem_append_left _ mem, covers, rfl⟩
    · exact ⟨⟨j, j + 1, w⟩, by simp, ⟨le_rfl, lt_add_one j⟩, rfl⟩

theorem Holds.prolong (holds : Holds (before ++ [s]) entries) (order : s.start ≤ s.stop) :
    Holds (before ++ [{ s with stop := s.stop + 1 }]) (entries ++ [(s.stop, s.value)]) := by
  intro j w
  rw [List.mem_append, ← holds, List.mem_singleton, Prod.mk.injEq]
  constructor
  · rintro ⟨t, mem, ⟨low, high⟩, rfl⟩
    obtain mem | rfl := mem_append_singleton.mp mem
    · exact .inl ⟨t, List.mem_append_left _ mem, ⟨low, high⟩, rfl⟩
    · by_cases last : j = s.stop
      · exact .inr ⟨last, rfl⟩
      · refine .inl ⟨s, by simp, ⟨low, ?_⟩, rfl⟩
        simp only at high
        omega
  · rintro (⟨t, mem, ⟨low, high⟩, rfl⟩ | ⟨rfl, rfl⟩)
    · obtain mem | rfl := mem_append_singleton.mp mem
      · exact ⟨t, List.mem_append_left _ mem, ⟨low, high⟩, rfl⟩
      · exact ⟨{ t with stop := t.stop + 1 }, by simp, ⟨low, high.trans (lt_add_one _)⟩, rfl⟩
    · exact ⟨{ s with stop := s.stop + 1 }, by simp, ⟨order, lt_add_one _⟩, rfl⟩

section
variable [DecidableEq σ]

/-- The last span is prolonged, or a new one is begun. -/
def add (spans : List (Span σ)) (entry : Int × σ) : List (Span σ) :=
  match spans.getLast? with
  | none => [⟨entry.1, entry.1 + 1, entry.2⟩]
  | some s =>
    if entry.1 = s.stop ∧ entry.2 = s.value then
      spans.dropLast ++ [{ s with stop := entry.1 + 1 }]
    else spans ++ [⟨entry.1, entry.1 + 1, entry.2⟩]

def spansOf (entries : List (Int × σ)) : List (Span σ) := entries.foldl add []

theorem add_append_singleton (before : List (Span σ)) (s : Span σ) (entry : Int × σ) :
    add (before ++ [s]) entry =
      if entry.1 = s.stop ∧ entry.2 = s.value then
        before ++ [{ s with stop := entry.1 + 1 }]
      else before ++ [s] ++ [⟨entry.1, entry.1 + 1, entry.2⟩] := by
  rw [add, List.getLast?_concat, List.dropLast_concat]

/-- What an addition does. -/
theorem add_cases (spans : List (Span σ)) (i : Int) (v : σ) :
    (∃ before s, spans = before ++ [s] ∧ i = s.stop ∧ v = s.value ∧
      add spans (i, v) = before ++ [{ s with stop := s.stop + 1 }]) ∨
    add spans (i, v) = spans ++ [⟨i, i + 1, v⟩] ∧
      ∀ t, spans.getLast? = some t → t.stop = i → t.value ≠ v := by
  rcases List.eq_nil_or_concat spans with rfl | ⟨before, s, rfl⟩
  · refine .inr ⟨rfl, ?_⟩
    intro t last
    cases last
  · rw [List.concat_eq_append, add_append_singleton]
    by_cases joins : i = s.stop ∧ v = s.value
    · obtain ⟨rfl, rfl⟩ := joins
      exact .inl ⟨before, s, rfl, rfl, rfl, if_pos ⟨rfl, rfl⟩⟩
    · refine .inr ⟨if_neg joins, ?_⟩
      intro t last stop value
      rw [List.getLast?_concat, Option.some.injEq] at last
      subst last
      exact joins ⟨stop.symm, value.symm⟩

/-- What holds of the spans of the entries that have come. -/
structure Joined (entries : List (Int × σ)) (spans : List (Span σ)) : Prop where
  maximal : Maximal spans
  holds : Holds spans entries
  below : ∀ s ∈ spans, ∃ e ∈ entries, s.stop = e.1 + 1

theorem Joined.add (joined : Joined entries spans) (later : ∀ e ∈ entries, e.1 < i) :
    Joined (entries ++ [(i, v)]) (add spans (i, v)) := by
  obtain ⟨before, s, rfl, rfl, rfl, prolonged⟩ | ⟨appended, other⟩ := add_cases spans i v
  · rw [prolonged]
    have order := joined.maximal.nonempty s (by simp)
    refine ⟨joined.maximal.prolong (by omega), joined.holds.prolong order.le, ?_⟩
    intro t mem
    obtain mem | rfl := mem_append_singleton.mp mem
    · obtain ⟨e, came, stop⟩ := joined.below t (List.mem_append_left _ mem)
      exact ⟨e, List.mem_append_left _ came, stop⟩
    · exact ⟨(s.stop, s.value), by simp, rfl⟩
  · rw [appended]
    have behind : ∀ t ∈ spans, t.stop ≤ i := by
      intro t mem
      obtain ⟨e, came, stop⟩ := joined.below t mem
      have := later e came
      omega
    refine ⟨joined.maximal.append (lt_add_one i) behind other, joined.holds.append, ?_⟩
    intro t mem
    obtain mem | rfl := mem_append_singleton.mp mem
    · obtain ⟨e, came, stop⟩ := joined.below t mem
      exact ⟨e, List.mem_append_left _ came, stop⟩
    · exact ⟨(i, v), by simp, rfl⟩

/-- The spans of entries with increasing indices. -/
theorem joined_spansOf (increasing : entries.Pairwise fun e f => e.1 < f.1) :
    Joined entries (spansOf entries) := by
  induction entries using List.reverseRecOn with
  | nil => exact ⟨⟨by simp [spansOf], .nil, .nil⟩, by simp [Holds, spansOf], by simp [spansOf]⟩
  | append_singleton entries entry ih =>
    obtain ⟨increasing, -, later⟩ := List.pairwise_append.mp increasing
    rw [spansOf, List.foldl_append]
    exact (ih increasing).add fun e came => later e came entry (List.mem_singleton.mpr rfl)

end

end Spans
