import GigaPdf.Editor.OutlineTree
import GigaPdf.Lib.Renumbering
import GigaPdf.Lib.Runs

/-!
# Outline edits

The operations of `outline-edit.ts` on the flat list. Only an indent looks at the entry before; what
an edit leaves is well formed exactly when the few entries that get a new neighbour fit behind it.
-/

namespace GigaPdf

open Chains Renumbering Runs

/-- `-1 | 1` -/
inductive Delta
  | back | forward
deriving DecidableEq

def Delta.value : Delta → Int
  | back => -1
  | forward => 1

/-- The flat list of the editor, and the counter of its synthetic ids. -/
structure OutlineState where
  flat : List FlatBookmark
  syntheticCounter : Nat

/-- Where an insertion goes. -/
def insertAt (flat : List FlatBookmark) : Option Int → Nat
  | none => flat.length
  | some index => (max 0 (min index flat.length)).toNat

def insertBookmark (clock : Nat → String) (s : OutlineState) (page : Int) (title : String)
    (index : Option Int) : OutlineState :=
  let item : FlatBookmark :=
    { id := nextId clock (s.syntheticCounter + 1), title := title, page := page, level := 0 }
  { flat := s.flat.take (insertAt s.flat index) ++ item :: s.flat.drop (insertAt s.flat index)
    syntheticCounter := s.syntheticCounter + 1 }

def removeBookmark (flat : List FlatBookmark) (id : String) : List FlatBookmark :=
  flat.filter fun b => b.id ≠ id

def renameBookmark (flat : List FlatBookmark) (id title : String) : List FlatBookmark :=
  flat.map fun b => if b.id = id then { b with title := title } else b

def moveBookmark (flat : List FlatBookmark) (id : String) (dir : Delta) : List FlatBookmark :=
  match flat.findIdx? fun b => b.id = id with
  | none => flat
  | some idx =>
    let target := (idx : Int) + dir.value
    if target < 0 ∨ flat.length ≤ target then flat else move idx target.toNat flat

/-- The level of every item with the id changes. -/
def shiftLevels (flat : List FlatBookmark) (id : String) (delta : Delta) : List FlatBookmark :=
  flat.map fun b => if b.id = id then { b with level := b.level + delta.value } else b

def reindentBookmark (flat : List FlatBookmark) (id : String) (delta : Delta) :
    List FlatBookmark :=
  match flat.findIdx? fun b => b.id = id with
  | none => flat
  | some idx =>
    match flat[idx]? with
    | none => flat
    | some current =>
      match delta with
      | .forward =>
        if idx = 0 then flat
        else match flat[idx - 1]? with
          | none => flat
          | some prev =>
            if prev.level + 1 ≤ current.level then flat else shiftLevels flat id .forward
      | .back => if current.level = 0 then flat else shiftLevels flat id .back

inductive OutlineOp
  | insert (page : Int) (title : String) (index : Option Int)
  | remove (id : String)
  | rename (id title : String)
  | move (id : String) (dir : Delta)
  | reindent (id : String) (delta : Delta)

def editOutline (clock : Nat → String) (s : OutlineState) : OutlineOp → OutlineState
  | .insert page title index => insertBookmark clock s page title index
  | .remove id => { s with flat := removeBookmark s.flat id }
  | .rename id title => { s with flat := renameBookmark s.flat id title }
  | .move id dir => { s with flat := moveBookmark s.flat id dir }
  | .reindent id delta => { s with flat := reindentBookmark s.flat id delta }

/-! ## When an edit fits -/

/-- The upper one of the two positions that a move exchanges. -/
def exchanged (flat : List FlatBookmark) (id : String) (dir : Delta) : Option Nat :=
  (flat.findIdx? fun b => b.id = id).bind fun idx =>
    match dir with
    | .back => if idx = 0 then none else some (idx - 1)
    | .forward => if idx + 1 < flat.length then some idx else none

/-- The check before a level changes. -/
def reindents (flat : List FlatBookmark) (id : String) (delta : Delta) : Prop :=
  ∃ idx ∈ flat.findIdx? fun b => b.id = id, ∃ current ∈ flat[idx]?,
    match delta with
    | .forward => idx ≠ 0 ∧ ∃ prev ∈ flat[idx - 1]?, current.level ≤ prev.level
    | .back => current.level ≠ 0

/-- The entries that get a new neighbour fit behind it. -/
def EditFits (flat : List FlatBookmark) : OutlineOp → Prop
  | .insert _ _ index =>
    (∀ a ∈ lastOf none (flat.take (insertAt flat index)), -1 ≤ a.level) ∧
      ∀ b ∈ flat[insertAt flat index]?, b.level ≤ 1
  | .remove id => Bridges FitsBelow (fun b => b.id ≠ id) none false flat
  | .rename _ _ => True
  | .move id dir => ∀ i ∈ exchanged flat id dir, ∀ x ∈ flat[i]?, ∀ y ∈ flat[i + 1]?,
      FitsBelow (lastOf none (flat.take i)) y ∧ x.level ≤ y.level + 1 ∧
        ∀ z ∈ flat[i + 2]?, z.level ≤ x.level + 1
  | .reindent id .forward => reindents flat id .forward →
      flat.IsChain fun a b => b.id = id → a.id ≠ id → b.level ≤ a.level
  | .reindent id .back => reindents flat id .back →
      flat.IsChain fun a b => a.id = id → b.id ≠ id → b.level ≤ a.level

/-! ## Inserting, removing, renaming -/

theorem insertBookmark_wellFormed_iff (clock : Nat → String) {s : OutlineState}
    (wellFormed : WellFormed s.flat) (page : Int) (title : String) (index : Option Int) :
    WellFormed (insertBookmark clock s page title index).flat ↔
      EditFits s.flat (.insert page title index) := by
  have chain : Chained FitsBelow none
      (s.flat.take (insertAt s.flat index) ++ s.flat.drop (insertAt s.flat index)) := by
    rw [List.take_append_drop]
    exact wellFormed
  rw [WellFormed, insertBookmark, chain.insert_iff, EditFits, Joins, List.head?_drop]
  apply and_congr
  · cases lastOf none (s.flat.take (insertAt s.flat index)) with
    | none => simp [FitsBelow]
    | some a => simp only [FitsBelow, Option.mem_some_iff, forall_eq']; omega
  · rfl

theorem removeBookmark_wellFormed_iff {flat : List FlatBookmark} (wellFormed : WellFormed flat)
    (id : String) :
    WellFormed (removeBookmark flat id) ↔ EditFits flat (.remove id) :=
  chained_filter_iff _ wellFormed fun _ => rfl

theorem renameBookmark_wellFormed {flat : List FlatBookmark} (wellFormed : WellFormed flat)
    (id title : String) : WellFormed (renameBookmark flat id title) := by
  have level (b : FlatBookmark) :
      (if b.id = id then { b with title := title } else b).level = b.level := by
    split <;> rfl
  apply (@chained_map _ _ _ FitsBelow none flat).mpr
  apply (wellFormed.congr _).mp wellFormed
  intro before b _
  cases before with
  | none => simp only [FitsBelow, Option.map_none, level]
  | some a => simp only [FitsBelow, Option.map_some, level]

/-! ## Moving -/

/-- A move exchanges two neighbours or does nothing. -/
theorem moveBookmark_cases (flat : List FlatBookmark) (id : String) (dir : Delta) :
    (exchanged flat id dir = none ∧ moveBookmark flat id dir = flat) ∨
      ∃ as x y bs, exchanged flat id dir = some as.length ∧ flat = as ++ x :: y :: bs ∧
        moveBookmark flat id dir = as ++ y :: x :: bs := by
  cases found : flat.findIdx? fun b => b.id = id with
  | none => simp [exchanged, moveBookmark, found]
  | some idx =>
    have inside : idx < flat.length := (List.findIdx?_eq_some_iff_findIdx_eq.mp found).1
    simp only [exchanged, moveBookmark, found, Option.bind_some]
    cases dir with
    | back =>
      by_cases first : idx = 0
      · simp [first, Delta.value]
      · obtain ⟨as, x, y, bs, rfl, length⟩ := exists_neighbours (l := flat) (i := idx - 1) (by omega)
        have target : ((idx : Int) + Delta.back.value).toNat = as.length := by
          simp only [Delta.value]
          omega
        have bounded : ¬((idx : Int) + Delta.back.value < 0 ∨
            ((as ++ x :: y :: bs).length : Int) ≤ idx + Delta.back.value) := by
          simp only [Delta.value]
          omega
        have back : idx = as.length + 1 := by omega
        right
        refine ⟨as, x, y, bs, by rw [if_neg first, length], rfl, ?_⟩
        rw [if_neg bounded, target, back, move_back]
    | forward =>
      by_cases last : idx + 1 < flat.length
      · obtain ⟨as, x, y, bs, rfl, length⟩ := exists_neighbours last
        have target : ((idx : Int) + Delta.forward.value).toNat = as.length + 1 := by
          simp only [Delta.value]
          omega
        have bounded : ¬((idx : Int) + Delta.forward.value < 0 ∨
            ((as ++ x :: y :: bs).length : Int) ≤ idx + Delta.forward.value) := by
          simp only [Delta.value]
          omega
        right
        refine ⟨as, x, y, bs, by rw [if_pos last, length], rfl, ?_⟩
        rw [if_neg bounded, target, ← length, move_forward]
      · left
        have bounded : (idx : Int) + Delta.forward.value < 0 ∨
            (flat.length : Int) ≤ idx + Delta.forward.value := by
          simp only [Delta.value]
          omega
        exact ⟨if_neg last, if_pos bounded⟩

theorem moveBookmark_wellFormed_iff {flat : List FlatBookmark} (wellFormed : WellFormed flat)
    (id : String) (dir : Delta) :
    WellFormed (moveBookmark flat id dir) ↔ EditFits flat (.move id dir) := by
  obtain ⟨stays, same⟩ | ⟨as, x, y, bs, exchange, rfl, moved⟩ := moveBookmark_cases flat id dir
  · simp [EditFits, stays, same, wellFormed]
  · have upper : (as ++ x :: y :: bs)[as.length]? = some x := by simp
    have lower : (as ++ x :: y :: bs)[as.length + 1]? = some y := by simp
    have behind : (as ++ x :: y :: bs)[as.length + 2]? = bs.head? := by
      cases bs <;> simp
    rw [moved, WellFormed, wellFormed.swap_iff, EditFits, exchange]
    simp only [Option.mem_some_iff, forall_eq', upper, lower, behind, List.take_left]
    rfl

/-! ## Indenting and outdenting -/

/-- The levels change exactly when the check passes. -/
theorem reindentBookmark_cases (flat : List FlatBookmark) (id : String) (delta : Delta) :
    (¬reindents flat id delta ∧ reindentBookmark flat id delta = flat) ∨
      reindents flat id delta ∧ reindentBookmark flat id delta = shiftLevels flat id delta := by
  cases found : flat.findIdx? fun b => b.id = id with
  | none => simp [reindents, reindentBookmark, found]
  | some idx =>
    have inside : idx < flat.length := (List.findIdx?_eq_some_iff_findIdx_eq.mp found).1
    have here := List.getElem?_eq_getElem inside
    cases delta with
    | back =>
      by_cases top : flat[idx].level = 0
      · simp [reindents, reindentBookmark, found, here, top]
      · simp [reindents, reindentBookmark, found, here, top]
    | forward =>
      by_cases first : idx = 0
      · subst first
        simp [reindents, reindentBookmark, found, here]
      · have before : flat[idx - 1]? = some flat[idx - 1] :=
          List.getElem?_eq_getElem (by omega)
        by_cases deep : flat[idx - 1].level + 1 ≤ flat[idx].level
        · have stays : ¬flat[idx].level ≤ flat[idx - 1].level := by omega
          simp [reindents, reindentBookmark, found, here, first, before, deep, stays]
        · have moves : flat[idx].level ≤ flat[idx - 1].level := by omega
          simp [reindents, reindentBookmark, found, here, first, before, deep, moves]

/-- The first entry keeps its level. -/
theorem ne_of_reindents {flat : List FlatBookmark} (wellFormed : WellFormed flat) {id : String}
    {delta : Delta} (changes : reindents flat id delta) : ∀ b ∈ flat.head?, b.id ≠ id := by
  intro b first same
  cases flat with
  | nil => cases first
  | cons c flat =>
    rw [List.head?_cons, Option.mem_some_iff] at first
    obtain rfl := first
    obtain ⟨idx, found, current, here, check⟩ := changes
    have zero : idx = 0 := by simpa [List.findIdx?_cons, same, eq_comm] using found
    subst zero
    cases delta with
    | forward => exact check.1 rfl
    | back =>
      rw [List.getElem?_cons_zero, Option.mem_some_iff] at here
      subst here
      exact check wellFormed.1

theorem shiftLevels_wellFormed_iff {flat : List FlatBookmark} (wellFormed : WellFormed flat)
    {id : String} (others : ∀ b ∈ flat.head?, b.id ≠ id) (delta : Delta) :
    WellFormed (shiftLevels flat id delta) ↔ flat.IsChain fun a b =>
      (if b.id = id then b.level + delta.value else b.level) ≤
        (if a.id = id then a.level + delta.value else a.level) + 1 := by
  have level (b : FlatBookmark) :
      (if b.id = id then { b with level := b.level + delta.value } else b).level =
        if b.id = id then b.level + delta.value else b.level := by
    split <;> rfl
  rw [WellFormed, shiftLevels, ← Option.map_none, chained_map, chained_none_iff]
  simp only [Option.map_some, FitsBelow, level, and_iff_right_iff_imp]
  intro _ b first
  have zero := (chained_none_iff.mp wellFormed).1 b first
  rw [if_neg (others b first)]
  exact zero

theorem reindentBookmark_wellFormed_iff {flat : List FlatBookmark} (wellFormed : WellFormed flat)
    (id : String) (delta : Delta) :
    WellFormed (reindentBookmark flat id delta) ↔ EditFits flat (.reindent id delta) := by
  obtain ⟨stays, same⟩ | ⟨changes, same⟩ := reindentBookmark_cases flat id delta
  · cases delta <;> simp [EditFits, stays, same, wellFormed]
  · have steps := (chained_none_iff.mp wellFormed).2
    rw [same, shiftLevels_wellFormed_iff wellFormed (ne_of_reindents wellFormed changes)]
    cases delta with
    | forward =>
      simp only [EditFits, changes, forall_const]
      apply isChain_congr steps
      intro a b step
      simp only [FitsBelow, Delta.value] at step ⊢
      grind
    | back =>
      simp only [EditFits, changes, forall_const]
      apply isChain_congr steps
      intro a b step
      simp only [FitsBelow, Delta.value] at step ⊢
      grind

/-! ## Runs -/

theorem editOutline_wellFormed_iff (clock : Nat → String) {s : OutlineState}
    (wellFormed : WellFormed s.flat) (op : OutlineOp) :
    WellFormed (editOutline clock s op).flat ↔ EditFits s.flat op := by
  cases op with
  | insert page title index => exact insertBookmark_wellFormed_iff clock wellFormed page title index
  | remove id => exact removeBookmark_wellFormed_iff wellFormed id
  | rename id title => simp [editOutline, EditFits, renameBookmark_wellFormed wellFormed]
  | move id dir => exact moveBookmark_wellFormed_iff wellFormed id dir
  | reindent id delta => exact reindentBookmark_wellFormed_iff wellFormed id delta

theorem move_mem {flat : List FlatBookmark} {id : String} {dir : Delta} {b : FlatBookmark}
    (mem : b ∈ moveBookmark flat id dir) : b ∈ flat := by
  obtain ⟨-, same⟩ | ⟨as, x, y, bs, -, rfl, moved⟩ := moveBookmark_cases flat id dir
  · rwa [same] at mem
  · rw [moved] at mem
    simp only [List.mem_append, List.mem_cons] at mem ⊢
    obtain mem | mem | mem | mem := mem <;> simp [mem]

theorem shiftLevels_nonneg {flat : List FlatBookmark} {id : String} {delta : Delta}
    (apart : (flat.map FlatBookmark.id).Nodup) (depths : ∀ b ∈ flat, 0 ≤ b.level)
    (changes : reindents flat id delta) : ∀ b ∈ shiftLevels flat id delta, 0 ≤ b.level := by
  intro b shifted
  obtain ⟨c, mem, rfl⟩ := List.mem_map.mp shifted
  have deep := depths c mem
  split
  · rename_i own
    obtain ⟨idx, found, current, here, check⟩ := changes
    have currentId : current.id = id := by
      obtain ⟨inside, first, -⟩ := List.findIdx?_eq_some_iff_getElem.mp found
      rw [List.getElem?_eq_getElem inside, Option.mem_some_iff] at here
      rw [← here]
      exact of_decide_eq_true first
    have only : c = current := by
      apply List.inj_on_of_nodup_map apart mem (List.mem_of_getElem? here)
      rw [own, currentId]
    cases delta with
    | forward => simp only [Delta.value]; omega
    | back =>
      subst only
      simp only [Delta.value]
      omega
  · exact deep

/-- Levels stay depths while the ids are distinct. -/
theorem editOutline_nonneg (clock : Nat → String) {s : OutlineState} (op : OutlineOp)
    (apart : (s.flat.map FlatBookmark.id).Nodup) (depths : ∀ b ∈ s.flat, 0 ≤ b.level) :
    ∀ b ∈ (editOutline clock s op).flat, 0 ≤ b.level := by
  intro b mem
  cases op with
  | insert page title index =>
    simp only [editOutline, insertBookmark, List.mem_append, List.mem_cons] at mem
    obtain mem | rfl | mem := mem
    · exact depths b (List.mem_of_mem_take mem)
    · exact Int.le_refl 0
    · exact depths b (List.mem_of_mem_drop mem)
  | remove id => exact depths b (List.mem_of_mem_filter mem)
  | rename id title =>
    obtain ⟨c, kept, rfl⟩ := List.mem_map.mp mem
    have deep := depths c kept
    split <;> exact deep
  | move id dir => exact depths b (move_mem mem)
  | reindent id delta =>
    obtain ⟨-, same⟩ | ⟨changes, same⟩ := reindentBookmark_cases s.flat id delta
    · rw [editOutline, same] at mem
      exact depths b mem
    · rw [editOutline, same] at mem
      exact shiftLevels_nonneg apart depths changes b mem

/-- An edit leaves a well-formed list exactly when the entries with a new neighbour fit, and after
edits that all fit the levels are saved as they are, but for a negative one. With distinct ids no
level gets negative. -/
theorem outlineEdits_wellFormed (clock : Nat → String) :
    (∀ (s : OutlineState) (op : OutlineOp), WellFormed s.flat →
      (WellFormed (editOutline clock s op).flat ↔ EditFits s.flat op)) ∧
    (∀ s t : OutlineState, WellFormed s.flat →
      Reaches (fun s op => some (editOutline clock s op)) (fun s op => EditFits s.flat op) s t →
      WellFormed t.flat ∧ ∀ counter, (reopened clock counter t.flat).map FlatBookmark.level =
        t.flat.map fun b => max 0 b.level) ∧
    ∀ s t : OutlineState, WellFormed s.flat → (∀ b ∈ s.flat, 0 ≤ b.level) →
      Reaches (fun s op => some (editOutline clock s op))
        (fun s op => EditFits s.flat op ∧ (s.flat.map FlatBookmark.id).Nodup) s t →
      WellFormed t.flat ∧ ∀ counter, (reopened clock counter t.flat).map FlatBookmark.level =
        t.flat.map FlatBookmark.level := by
  refine ⟨fun s op wellFormed => editOutline_wellFormed_iff clock wellFormed op, ?_, ?_⟩
  · intro s t wellFormed run
    have kept : WellFormed t.flat := by
      apply run.invariant (P := fun s => WellFormed s.flat) _ wellFormed
      intro s op t wellFormed fits next
      obtain rfl := Option.some.inj next
      exact (editOutline_wellFormed_iff clock wellFormed op).mpr fits
    refine ⟨kept, fun counter => ?_⟩
    rw [levels_reopened, clampLevels_of_chained kept (Int.le_refl 0) (Int.le_refl 0)]
  · intro s t wellFormed depths run
    have kept : WellFormed t.flat ∧ ∀ b ∈ t.flat, 0 ≤ b.level := by
      apply run.invariant (P := fun s => WellFormed s.flat ∧ ∀ b ∈ s.flat, 0 ≤ b.level) _
        ⟨wellFormed, depths⟩
      intro s op t ⟨wellFormed, depths⟩ ⟨fits, apart⟩ next
      obtain rfl := Option.some.inj next
      exact ⟨(editOutline_wellFormed_iff clock wellFormed op).mpr fits,
        editOutline_nonneg clock op apart depths⟩
    refine ⟨kept.1, fun counter => ?_⟩
    rw [levels_reopened, (clampLevels_eq_self_iff t.flat).mpr kept]

/-- A chapter with two sections. -/
def chapterWithSections : List FlatBookmark :=
  [⟨"a", "Chapter 1", 1, 0⟩, ⟨"b", "Section 1.1", 2, 1⟩, ⟨"c", "Section 1.2", 3, 1⟩]

/-- The last section is outdented. -/
theorem outlineEdits_wellFormed_section :
    WellFormed (editOutline (fun _ => "mb1c0k2d") ⟨chapterWithSections, 0⟩
      (.reindent "c" .back)).flat := by
  apply ((outlineEdits_wellFormed fun _ => "mb1c0k2d").1 ⟨chapterWithSections, 0⟩
    (.reindent "c" .back) (by decide)).mpr
  intro _
  decide

/-- Without their chapter the sections begin at level 1. -/
theorem outlineEdits_wellFormed_orphans :
    ¬∀ (clock : Nat → String) (s : OutlineState) (op : OutlineOp), WellFormed s.flat →
      WellFormed (editOutline clock s op).flat := by
  intro all
  have orphans := all (fun _ => "mb1c0k2d") ⟨chapterWithSections, 0⟩ (.remove "a") (by decide)
  revert orphans
  decide

end GigaPdf
