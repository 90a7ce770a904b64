import Mathlib.Data.List.TakeWhile
import Mathlib.Data.List.Induction

/-!
# Lines

A list is cut into lines where an item is not near the first of its line. In an ordered list the
first items of the lines, and what is on a line, can be told from the order alone.
-/

namespace Lines

variable {α : Type*} (near : α → α → Bool)

/-- The lines of `rest`, when the line of `first` has `more` already. -/
def linesFrom : α → List α → List α → List (List α)
  | first, more, [] => [first :: more]
  | first, more, a :: rest =>
    if near first a then linesFrom first (more ++ [a]) rest
    else (first :: more) :: linesFrom a [] rest

def lines : List α → List (List α)
  | [] => []
  | a :: rest => linesFrom near a [] rest

/-- By lines: what holds of nothing, and of a line in front of what is left. -/
theorem induction_lines {motive : List α → Prop} (nil : motive [])
    (cons : ∀ a rest, motive (rest.dropWhile (near a)) → motive (a :: rest)) (l : List α) :
    motive l := by
  induction size : l.length using Nat.strong_induction_on generalizing l with
  | _ n ih =>
    cases l with
    | nil => exact nil
    | cons a rest =>
      have shorter := (List.dropWhile_sublist (l := rest) (near a)).length_le
      rw [List.length_cons] at size
      exact cons a rest (ih _ (by omega) _ rfl)

variable {near}

theorem linesFrom_eq (first : α) (more rest : List α) :
    linesFrom near first more rest = (first :: (more ++ rest.takeWhile (near first))) ::
      lines near (rest.dropWhile (near first)) := by
  induction rest generalizing more with
  | nil =>
    rw [linesFrom, List.takeWhile_nil, List.append_nil]
    rfl
  | cons a rest ih =>
    rw [linesFrom, List.takeWhile_cons, List.dropWhile_cons]
    cases near first a with
    | true =>
      rw [if_pos rfl, ih, List.append_assoc]
      rfl
    | false =>
      rw [if_neg Bool.false_ne_true, if_neg Bool.false_ne_true, if_neg Bool.false_ne_true,
        List.append_nil]
      rfl

theorem lines_cons (a : α) (rest : List α) :
    lines near (a :: rest) =
      (a :: rest.takeWhile (near a)) :: lines near (rest.dropWhile (near a)) := by
  rw [lines, linesFrom_eq, List.nil_append]

theorem flatten_lines (l : List α) : (lines near l).flatten = l := by
  induction l using induction_lines near with
  | nil => rfl
  | cons a rest ih =>
    rw [lines_cons, List.flatten_cons, ih, List.cons_append, List.takeWhile_append_dropWhile]

theorem near_of_mem_lines {l line : List α} (mem : line ∈ lines near l) :
    ∃ a rest, line = a :: rest ∧ ∀ b ∈ rest, near a b = true := by
  induction l using induction_lines near with
  | nil => cases mem
  | cons a rest ih =>
    rw [lines_cons] at mem
    obtain rfl | mem := List.mem_cons.mp mem
    · exact ⟨a, _, rfl, fun b inside => List.mem_takeWhile_imp inside⟩
    · exact ih mem

/-! ## Lines of an ordered list -/

section
variable (near) (lt : α → α → Prop)

/-- The first items of lines: the least item, and what is the first behind such an item that is not
near it. -/
inductive Leads (items : List α) : α → Prop where
  | least {a : α} (mem : a ∈ items) (before : ∀ b ∈ items, b ≠ a → lt a b) : Leads items a
  | next {a b : α} (leads : Leads items a) (mem : b ∈ items) (behind : lt a b)
      (far : near a b = false) (between : ∀ c ∈ items, lt a c → lt c b → near a c = true) :
      Leads items b

/-- From `a` on to `b` all items are near `a`. -/
structure OnLine (items : List α) (a b : α) : Prop where
  behind : lt a b
  close : near a b = true
  between : ∀ c ∈ items, lt a c → lt c b → near a c = true

end

variable {lt : α → α → Prop} {l : List α}

theorem OnLine.congr {items items' : List α} (same : ∀ a, a ∈ items ↔ a ∈ items') {a b : α}
    (on : OnLine near lt items a b) : OnLine near lt items' a b :=
  ⟨on.behind, on.close, fun c mem => on.between c ((same c).mpr mem)⟩

theorem Leads.congr {items items' : List α} (same : ∀ a, a ∈ items ↔ a ∈ items') {a : α}
    (leads : Leads near lt items a) : Leads near lt items' a := by
  induction leads with
  | least mem before => exact .least ((same _).mp mem) fun b mem => before b ((same b).mpr mem)
  | next _ mem behind far between ih =>
    exact .next ih ((same _).mp mem) behind far fun c mem => between c ((same c).mpr mem)

/-- What is behind an item of an ordered list is what stands behind it. -/
theorem behind_iff (sorted : l.Pairwise lt) (asymm : ∀ a ∈ l, ∀ b ∈ l, lt a b → ¬lt b a)
    {before after : List α} {a c : α} (split : l = before ++ a :: after) (mem : c ∈ l) :
    lt a c ↔ c ∈ after := by
  subst split
  obtain ⟨-, sorted', across⟩ := List.pairwise_append.mp sorted
  have here : a ∈ before ++ a :: after := List.mem_append_cons_self
  refine ⟨fun less => ?_, fun inside => (List.pairwise_cons.mp sorted').1 c inside⟩
  obtain early | late := List.mem_append.mp mem
  · exact absurd (across c early a List.mem_cons_self) (asymm a here c mem less)
  · obtain rfl | late := List.mem_cons.mp late
    · exact absurd less (asymm c mem c mem less)
    · exact late

/-- What is between two items of an ordered list stands between them. -/
theorem mem_of_between (sorted : l.Pairwise lt) (asymm : ∀ a ∈ l, ∀ b ∈ l, lt a b → ¬lt b a)
    {before mid after : List α} {a b c : α} (split : l = before ++ a :: (mid ++ b :: after))
    (mem : c ∈ l) (behind : lt a c) (ahead : lt c b) : c ∈ mid := by
  have split' : l = (before ++ a :: mid) ++ b :: after := by
    rw [split, List.append_assoc, List.cons_append]
  have here : b ∈ l := by
    rw [split']
    exact List.mem_append_cons_self
  obtain inside | late := List.mem_append.mp ((behind_iff sorted asymm split mem).mp behind)
  · exact inside
  · obtain rfl | late := List.mem_cons.mp late
    · exact absurd ahead (asymm c mem c mem ahead)
    · exact absurd ((behind_iff sorted asymm split' mem).mpr late) (asymm c mem b here ahead)

theorem between_of_mem (sorted : l.Pairwise lt) {before mid after : List α} {a b c : α}
    (split : l = before ++ a :: (mid ++ b :: after)) (mem : c ∈ mid) : lt a c ∧ lt c b := by
  subst split
  have tail := (List.pairwise_append.mp sorted).2.1
  obtain ⟨first, others⟩ := List.pairwise_cons.mp tail
  exact ⟨first c (List.mem_append_left _ mem),
    (List.pairwise_append.mp others).2.2 c mem b List.mem_cons_self⟩

theorem lines_leads (sorted : l.Pairwise lt) (asymm : ∀ a ∈ l, ∀ b ∈ l, lt a b → ¬lt b a)
    {before rest : List α} (split : l = before ++ rest)
    (leads : ∀ a ∈ rest.head?, Leads near lt l a) {line : List α} (mem : line ∈ lines near rest) :
    ∃ first more, line = first :: more ∧ Leads near lt l first ∧
      ∀ b ∈ more, OnLine near lt l first b := by
  induction rest using induction_lines near generalizing before with
  | nil => cases mem
  | cons a rest ih =>
    have first := leads a rfl
    have inside : ∀ c ∈ rest, c ∈ l := fun c mem => by
      rw [split]
      exact List.mem_append_right _ (List.mem_cons_of_mem a mem)
    have behind : ∀ c ∈ rest, lt a c := fun c mem =>
      (behind_iff sorted asymm split (inside c mem)).mpr mem
    rw [lines_cons] at mem
    obtain rfl | mem := List.mem_cons.mp mem
    · refine ⟨a, _, rfl, first, fun b mem => ?_⟩
      obtain ⟨mid, after, parts⟩ := List.append_of_mem mem
      have whole : rest = mid ++ b :: (after ++ rest.dropWhile (near a)) := by
        conv_lhs => rw [← List.takeWhile_append_dropWhile (p := near a) (l := rest), parts]
        simp
      have listed := (List.takeWhile_sublist (near a)).mem mem
      refine ⟨behind b listed, List.mem_takeWhile_imp mem, fun c here after_a before_b => ?_⟩
      have between := mem_of_between sorted asymm (whole ▸ split) here after_a before_b
      exact List.mem_takeWhile_imp (parts ▸ List.mem_append_left _ between)
    · have split' : l = (before ++ a :: rest.takeWhile (near a)) ++ rest.dropWhile (near a) := by
        rw [List.append_assoc, List.cons_append, List.takeWhile_append_dropWhile, split]
      refine ih split' (fun b head => ?_) mem
      obtain ⟨after, parts⟩ := List.head?_eq_some_iff.mp head
      have whole : rest = rest.takeWhile (near a) ++ b :: after := by
        rw [← parts, List.takeWhile_append_dropWhile]
      have listed : b ∈ rest := by
        rw [whole]
        exact List.mem_append_cons_self
      have far := List.head?_dropWhile_not (near a) rest
      rw [head] at far
      refine .next first (inside b listed) (behind b listed) (by simpa using far) ?_
      exact fun c here after_a before_b => List.mem_takeWhile_imp
        (mem_of_between sorted asymm (whole ▸ split) here after_a before_b)

/-- In an ordered list a line starts with an item that leads, and has the items on its line. -/
theorem mem_lines (sorted : l.Pairwise lt) (asymm : ∀ a ∈ l, ∀ b ∈ l, lt a b → ¬lt b a)
    {line : List α} (mem : line ∈ lines near l) :
    ∃ first more, line = first :: more ∧ Leads near lt l first ∧
      ∀ b ∈ more, OnLine near lt l first b := by
  refine lines_leads sorted asymm (List.nil_append l).symm (fun a head => ?_) mem
  obtain ⟨rest, rfl⟩ := List.head?_eq_some_iff.mp head
  refine .least List.mem_cons_self fun b mem other => ?_
  obtain rfl | mem := List.mem_cons.mp mem
  · exact absurd rfl other
  · exact (List.pairwise_cons.mp sorted).1 b mem

theorem Leads.split (sorted : l.Pairwise lt) (asymm : ∀ a ∈ l, ∀ b ∈ l, lt a b → ¬lt b a)
    {a : α} (leads : Leads near lt l a) :
    ∃ before after, l = before ++ a :: after ∧
      ∀ line ∈ lines near (a :: after), line ∈ lines near l := by
  induction leads with
  | least mem before =>
    rename_i a
    cases l with
    | nil => cases mem
    | cons b rest =>
      obtain rfl | later := List.mem_cons.mp mem
      · exact ⟨[], rest, rfl, fun line mem => mem⟩
      · have first := (List.pairwise_cons.mp sorted).1 a later
        have other : b ≠ a := by
          rintro rfl
          exact asymm b mem b mem first first
        exact absurd (before b List.mem_cons_self other) (asymm b List.mem_cons_self a mem first)
  | next leads mem behind far between ih =>
    rename_i a b
    obtain ⟨before, after, split, part⟩ := ih
    obtain ⟨mid, after', parts⟩ :=
      List.append_of_mem ((behind_iff sorted asymm split mem).mp behind)
    subst parts
    have close : ∀ c ∈ mid, near a c = true := fun c inside =>
      have ⟨after_a, before_b⟩ := between_of_mem sorted split inside
      between c (by simp [split, inside]) after_a before_b
    refine ⟨before ++ a :: mid, after', by simp [split], fun line inside => part line ?_⟩
    rw [lines_cons, List.takeWhile_append_of_pos close, List.dropWhile_append_of_pos close,
      List.takeWhile_cons_of_neg (by simp [far]), List.dropWhile_cons_of_neg (by simp [far])]
    exact List.mem_cons_of_mem _ inside

/-- An item that leads is the first of a line, and the line has all that is on it. -/
theorem Leads.mem_lines (sorted : l.Pairwise lt) (asymm : ∀ a ∈ l, ∀ b ∈ l, lt a b → ¬lt b a)
    {a : α} (leads : Leads near lt l a) :
    ∃ line ∈ lines near l, ∀ b ∈ l, OnLine near lt l a b → b ∈ line := by
  obtain ⟨before, after, split, part⟩ := leads.split sorted asymm
  refine ⟨_, part _ (lines_cons a after ▸ List.mem_cons_self), fun b mem on => ?_⟩
  obtain ⟨mid, after', parts⟩ :=
    List.append_of_mem ((behind_iff sorted asymm split mem).mp on.behind)
  subst parts
  have close : ∀ c ∈ mid, near a c = true := fun c inside =>
    have ⟨after_a, before_b⟩ := between_of_mem sorted split inside
    on.between c (by simp [split, inside]) after_a before_b
  rw [List.takeWhile_append_of_pos close, List.takeWhile_cons_of_pos on.close]
  simp

/-- From line to line the first items are in a relation that holds across a gap. -/
theorem pairwise_heads (sorted : l.Pairwise lt) {R : α → α → Prop}
    (trans : ∀ a b c, R a b → R b c → R a c) (gap : ∀ a b, lt a b → near a b = false → R a b) :
    (lines near l).Pairwise fun m n => ∀ a ∈ m.head?, ∀ b ∈ n.head?, R a b := by
  induction l using induction_lines near with
  | nil => exact .nil
  | cons a rest ih =>
    obtain ⟨first, others⟩ := List.pairwise_cons.mp sorted
    have later := ih (others.sublist (List.dropWhile_sublist _))
    rw [lines_cons]
    refine List.pairwise_cons.mpr ⟨fun line mem => ?_, later⟩
    rintro _ ⟨⟩ b head
    have far := List.head?_dropWhile_not (near a) rest
    have listed : ∀ c ∈ rest.dropWhile (near a), c ∈ rest := fun c =>
      (List.dropWhile_sublist (near a)).mem
    cases left : rest.dropWhile (near a) with
    | nil =>
      rw [left] at mem
      cases mem
    | cons c after =>
      rw [left] at far mem later listed
      have across : R a c := gap a c (first c (listed c List.mem_cons_self)) (by simpa using far)
      rw [lines_cons] at mem later
      obtain rfl | mem := List.mem_cons.mp mem
      · cases head
        exact across
      · exact trans a c b across ((List.pairwise_cons.mp later).1 line mem c rfl b head)

end Lines
