import GigaPdf.Editor.Coordinates
import GigaPdf.Lib.Buckets
import GigaPdf.Lib.Positions
import GigaPdf.Lib.Reordering

/-!
# The in-place pass

The part of `applyOperations` that edits the elements of a page where they are. The engine
addresses them by their position: `removeElement` deletes one, `reorderElement` moves one to the
front or to the back, and every other call changes only the element that it addresses.
-/

namespace GigaPdf

open Positions Reordering

/-- `[a, b, c, d, e, f]`. -/
structure AffineMatrix where
  a : ℚ
  b : ℚ
  c : ℚ
  d : ℚ
  e : ℚ
  f : ℚ
deriving DecidableEq

structure Rgb where
  red : ℚ
  green : ℚ
  blue : ℚ
deriving DecidableEq

/-- Only the changed fields are set. -/
structure PathStyleOverride where
  fill : Option Rgb
  stroke : Option Rgb
  strokeWidth : Option ℚ
  fillAlpha : Option ℚ
  strokeAlpha : Option ℚ
  dash : Option (List ℚ)
deriving DecidableEq

inductive InPlaceKind
  | replace | transform | restyle | setOpacity | reorder | remove
deriving DecidableEq

/-- `originalIndex` is the place of the operation in the queue. -/
structure InPlaceOp where
  pageNumber : Nat
  index : Nat
  kind : InPlaceKind
  newText : Option String
  move : Option (ℚ × ℚ)
  matrix : Option AffineMatrix
  style : Option PathStyleOverride
  opacity : Option ℚ
  toFront : Option Bool
  originalIndex : Nat
deriving DecidableEq

/-- An engine call changes its element, returns `false`, or raises. -/
inductive CallResult (ε : Type)
  | changed (e : ε)
  | refused
  | raised

/-- The engine's calls on one element. -/
structure Engine (ε : Type) where
  replaceText : String → ε → CallResult ε
  moveElement : ℚ × ℚ → ε → CallResult ε
  transformElement : AffineMatrix → ε → CallResult ε
  setPathStyle : PathStyleOverride → ε → CallResult ε
  setElementOpacity : ℚ → ε → CallResult ε

/-- The counters of the result, one for each kind of call. -/
inductive InPlaceCounter
  | replaced | moved | transformed | restyled | opacitySet | reordered | removed
deriving DecidableEq

/-- The elements of a page, and the calls counted so far. -/
structure PagePass (ε : Type) where
  elements : List ε
  counted : List InPlaceCounter

section
variable {ε : Type}

namespace Engine

variable (engine : Engine ε)

/-- The calls of an operation in their order: the geometry comes first. -/
def calls (op : InPlaceOp) : List (InPlaceCounter × (ε → CallResult ε)) :=
  let geometry := op.matrix.toList.map fun m =>
    (InPlaceCounter.transformed, engine.transformElement m)
  match op.kind with
  | .transform => geometry
  | .restyle => geometry ++ op.style.toList.map fun s => (.restyled, engine.setPathStyle s)
  | .setOpacity => geometry ++ op.opacity.toList.map fun o => (.opacitySet, engine.setElementOpacity o)
  | .replace =>
    (.replaced, engine.replaceText (op.newText.getD "")) ::
      op.move.toList.map fun d => (.moved, engine.moveElement d)
  | .reorder | .remove => []

end Engine

/-- A call that raises ends the operation, and leaves what the calls before it did. -/
def perform : List (InPlaceCounter × (ε → CallResult ε)) → ε → ε × List InPlaceCounter
  | [], e => (e, [])
  | (counter, call) :: rest, e =>
    match call e with
    | .changed e' => ((perform rest e').1, counter :: (perform rest e').2)
    | .refused => perform rest e
    | .raised => (e, [])

/-- An index past the last element is refused. -/
def Engine.stableStep (engine : Engine ε) (page : PagePass ε) (op : InPlaceOp) : PagePass ε :=
  match op.kind with
  | .remove =>
    if op.index < page.elements.length then
      ⟨page.elements.eraseIdx op.index, page.counted ++ [.removed]⟩
    else page
  | _ =>
    match page.elements[op.index]? with
    | none => page
    | some e =>
      ⟨page.elements.set op.index (perform (engine.calls op) e).1,
        page.counted ++ (perform (engine.calls op) e).2⟩

def reorderStep (page : PagePass ε) (op : InPlaceOp) : PagePass ε :=
  match op.toFront with
  | none => page
  | some toFront =>
    if op.index < page.elements.length then
      ⟨moveAt op.index toFront page.elements, page.counted ++ [.reordered]⟩
    else page

/-- All but the reorders, by descending index; the sort is stable. -/
def stableOps (ops : List InPlaceOp) : List InPlaceOp :=
  (ops.filter fun op => op.kind ≠ .reorder).insertionSort fun a b => b.index ≤ a.index

/-- The reorders in the order in which they were queued. -/
def reorderOps (ops : List InPlaceOp) : List InPlaceOp :=
  (ops.filter fun op => op.kind = .reorder).insertionSort fun a b =>
    a.originalIndex ≤ b.originalIndex

/-- The stable operations and the removals, and then the reorders. -/
def Engine.inPlacePage (engine : Engine ε) (elements : List ε) (ops : List InPlaceOp) :
    PagePass ε :=
  (reorderOps ops).foldl reorderStep ((stableOps ops).foldl engine.stableStep ⟨elements, []⟩)

/-- The elements of every page, counted from 1. -/
abbrev Document (ε : Type) := Nat → List ε

def Engine.inPlacePass (engine : Engine ε) (doc : Document ε) (ops : List InPlaceOp) :
    Document ε × List InPlaceCounter :=
  let byPage := Buckets.collect (fun op => some (op.pageNumber, op)) ops
  byPage.foldl (fun out bucket =>
    let page := engine.inPlacePage (out.1 bucket.1) bucket.2
    (Function.update out.1 bucket.1 page.elements, out.2 ++ page.counted)) (doc, [])

/-! ## What an operation does to its element -/

/-- A removal takes the element away, every other operation performs its calls on it. -/
def Engine.edit (engine : Engine ε) (op : InPlaceOp) : Edit ε :=
  if op.kind = .remove then none else some fun e => (perform (engine.calls op) e).1

theorem stableStep_elements (engine : Engine ε) (page : PagePass ε) (op : InPlaceOp) :
    (engine.stableStep page op).elements = editAt op.index (engine.edit op) page.elements := by
  by_cases removal : op.kind = .remove
  · rw [Engine.edit, if_pos removal, editAt_none, Engine.stableStep, removal]
    simp only
    split
    · rfl
    · rename_i bound
      rw [List.eraseIdx_of_length_le (by omega)]
  · rw [Engine.edit, if_neg removal, editAt_some, List.modify_eq_set_getElem?, Engine.stableStep]
    split
    · exact absurd ‹_› removal
    · cases page.elements[op.index]? <;> rfl

/-- The edits of a batch with their positions. -/
def Engine.edits (engine : Engine ε) (ops : List InPlaceOp) : List (Nat × Edit ε) :=
  ops.map fun op => (op.index, engine.edit op)

theorem foldl_stableStep (engine : Engine ε) (ops : List InPlaceOp) (page : PagePass ε) :
    (ops.foldl engine.stableStep page).elements = editAll (engine.edits ops) page.elements := by
  induction ops generalizing page with
  | nil => rfl
  | cons op ops ih =>
    rw [List.foldl_cons, ih, stableStep_elements]
    rfl

theorem stableOps_descending (ops : List InPlaceOp) :
    (stableOps ops).Pairwise fun a b => b.index ≤ a.index := by
  have total : Std.Total fun a b : InPlaceOp => b.index ≤ a.index := ⟨fun a b => by omega⟩
  have trans : IsTrans InPlaceOp fun a b => b.index ≤ a.index := ⟨fun a b c => by omega⟩
  exact List.pairwise_insertionSort _ _

/-- The edits of an index, in the order in which they were queued. -/
def Engine.editsOf (engine : Engine ε) (ops : List InPlaceOp) (i : Nat) : List (Edit ε) :=
  (ops.filter fun op => op.index = i).map engine.edit

theorem editsAt_edits (engine : Engine ε) (ops : List InPlaceOp) (i : Nat) :
    editsAt (engine.edits ops) i = engine.editsOf ops i := by
  rw [editsAt, Engine.edits, List.filter_map, List.map_map]
  rfl

/-- The operations of a batch that are not reorders. -/
def stableOnly (ops : List InPlaceOp) : List InPlaceOp := ops.filter fun op => op.kind ≠ .reorder

/-- **The first phase settles the page**: index by index from the last, each with its operations in
the order in which they were queued. -/
theorem stablePhase_elements (engine : Engine ε) (elements : List ε) (ops : List InPlaceOp) :
    ((stableOps ops).foldl engine.stableStep ⟨elements, []⟩).elements =
      settle (engine.editsOf (stableOnly ops)) elements := by
  have descending : (engine.edits (stableOps ops)).Pairwise fun e e' => e'.1 ≤ e.1 := by
    rw [Engine.edits, List.pairwise_map]
    exact stableOps_descending ops
  have groups : ∀ i, editsAt (engine.edits (stableOps ops)) i =
      engine.editsOf (stableOnly ops) i := by
    intro i
    rw [editsAt_edits, Engine.editsOf, stableOps, filter_insertionSort InPlaceOp.index]
    rfl
  rw [foldl_stableStep, editAll_descending descending, settle_congr groups]

/-! ## Page by page -/

/-- The operations of a page, in the order in which they were queued. -/
def onPage (page : Nat) (ops : List InPlaceOp) : List InPlaceOp :=
  ops.filter fun op => op.pageNumber = page

theorem inPlacePage_nil (engine : Engine ε) (elements : List ε) :
    engine.inPlacePage elements [] = ⟨elements, []⟩ := rfl

theorem foldl_inPlacePage (engine : Engine ε) {byPage : Buckets Nat InPlaceOp}
    (nodup : (Buckets.keys byPage).Nodup) (out : Document ε × List InPlaceCounter) (page : Nat) :
    (byPage.foldl (fun out bucket =>
      let pass := engine.inPlacePage (out.1 bucket.1) bucket.2
      (Function.update out.1 bucket.1 pass.elements, out.2 ++ pass.counted)) out).1 page =
      (engine.inPlacePage (out.1 page) (Buckets.get page byPage)).elements := by
  induction byPage generalizing out with
  | nil => rfl
  | cons bucket byPage ih =>
    obtain ⟨key, ops⟩ := bucket
    obtain ⟨fresh, nodup⟩ := List.nodup_cons.mp nodup
    rw [List.foldl_cons, ih nodup]
    by_cases here : key = page
    · subst here
      have absent : Buckets.get key byPage = [] := Buckets.get_eq_nil fresh
      simp only [absent, inPlacePage_nil, Function.update_self, Buckets.get, if_true]
    · have other : page ≠ key := fun e => here e.symm
      simp only [Function.update_of_ne other, Buckets.get, here, if_false]

/-- The pass does to each page what its own operations do to it. -/
theorem inPlacePass_page (engine : Engine ε) (doc : Document ε) (ops : List InPlaceOp)
    (page : Nat) :
    (engine.inPlacePass doc ops).1 page =
      (engine.inPlacePage (doc page) (onPage page ops)).elements := by
  have bucket : Buckets.get page (Buckets.collect (fun op => some (op.pageNumber, op)) ops) =
      onPage page ops := by
    rw [Buckets.get_collect, onPage, ← List.filterMap_eq_filter]
    congr 1
    funext op
    by_cases here : op.pageNumber = page <;> simp [Option.guard, here]
  rw [Engine.inPlacePass, foldl_inPlacePage engine (Buckets.nodup_collect _ _), bucket]

theorem reorderOps_eq_nil {ops : List InPlaceOp} (stable : ∀ op ∈ ops, op.kind ≠ .reorder) :
    reorderOps ops = [] := by
  have none_reorders : ops.filter (fun op => op.kind = .reorder) = [] := by
    rw [List.filter_eq_nil_iff]
    intro op hop
    simpa using stable op hop
  rw [reorderOps, none_reorders]
  rfl

theorem stableOnly_eq {ops : List InPlaceOp} (stable : ∀ op ∈ ops, op.kind ≠ .reorder) :
    stableOnly ops = ops := by
  rw [stableOnly, List.filter_eq_self]
  intro op hop
  simpa using stable op hop

/-- Where nothing is removed or moved, every element gets the edits of its index. -/
theorem inPlacePage_changes (engine : Engine ε) (elements : List ε) {ops : List InPlaceOp}
    (stable : ∀ op ∈ ops, op.kind ≠ .reorder) (kept : ∀ op ∈ ops, op.kind ≠ .remove) :
    (engine.inPlacePage elements ops).elements =
      elements.mapIdx fun k e => changes (engine.editsOf ops k) e := by
  have none_removed : ∀ k, removals (engine.editsOf ops k) = 0 := by
    intro k
    rw [removals, List.countP_eq_zero]
    intro e he
    obtain ⟨op, hop, rfl⟩ := List.mem_map.mp he
    simp [Engine.edit, kept op (List.mem_filter.mp hop).1]
  rw [Engine.inPlacePage, reorderOps_eq_nil stable, List.foldl_nil, stablePhase_elements,
    stableOnly_eq stable, settle_changes none_removed]

/-- Without reorders the pass settles every page. -/
theorem inPlacePass_settles (engine : Engine ε) (doc : Document ε) {ops : List InPlaceOp}
    {page : Nat} (stable : ∀ op ∈ onPage page ops, op.kind ≠ .reorder) :
    (engine.inPlacePass doc ops).1 page =
      settle (engine.editsOf (onPage page ops)) (doc page) := by
  rw [inPlacePass_page, Engine.inPlacePage, reorderOps_eq_nil stable, List.foldl_nil,
    stablePhase_elements, stableOnly_eq stable]

/-! ## One operation an element -/

theorem filter_eq_find? {ops : List InPlaceOp}
    (distinct : ops.Pairwise fun a b => a.index ≠ b.index) (i : Nat) :
    ops.filter (fun op => op.index = i) = (ops.find? fun op => op.index = i).toList := by
  induction ops with
  | nil => rfl
  | cons op ops ih =>
    obtain ⟨others, distinct⟩ := List.pairwise_cons.mp distinct
    by_cases here : op.index = i
    · have none_behind : ops.filter (fun op => op.index = i) = [] := by
        rw [List.filter_eq_nil_iff]
        intro op' hop'
        have other := others op' hop'
        simp only [decide_eq_true_eq]
        omega
      simp [here, none_behind]
    · simp only [List.filter_cons, List.find?_cons, here, decide_false, Bool.false_eq_true,
        if_false, ih distinct]

/-- **Every element gets its own edit.** The operations of a page that name no index twice do to
each element what the operation with its index says, whatever the order in which they were queued;
the other elements stay as they are and where they are among the rest. -/
theorem in_place_batch_stable (engine : Engine ε) (doc : Document ε) {ops : List InPlaceOp}
    {page : Nat} (stable : ∀ op ∈ onPage page ops, op.kind ≠ .reorder)
    (distinct : (onPage page ops).Pairwise fun a b => a.index ≠ b.index) :
    (engine.inPlacePass doc ops).1 page =
      patch (fun i => ((onPage page ops).find? fun op => op.index = i).map engine.edit)
        (doc page) := by
  have group : ∀ i, engine.editsOf (onPage page ops) i =
      (((onPage page ops).find? fun op => op.index = i).map engine.edit).toList := by
    intro i
    rw [Engine.editsOf, filter_eq_find? distinct]
    cases (onPage page ops).find? fun op => op.index = i <;> rfl
  have single : ∀ i, (engine.editsOf (onPage page ops) i).length ≤ 1 := by
    intro i
    rw [group]
    cases ((onPage page ops).find? fun op => op.index = i).map engine.edit <;> simp
  rw [inPlacePass_settles engine doc stable, settle_single single]
  apply patch_congr
  intro i
  rw [group]
  cases ((onPage page ops).find? fun op => op.index = i).map engine.edit <;> rfl

/-- A page of texts: only `replaceText` does something to them. -/
def textEngine : Engine String where
  replaceText text _ := .changed text
  moveElement _ _ := .refused
  transformElement _ _ := .refused
  setPathStyle _ _ := .refused
  setElementOpacity _ _ := .refused

def threeTexts : Document String := fun page => if page = 1 then ["one", "two", "three"] else []

def removeOp (index originalIndex : Nat) : InPlaceOp :=
  ⟨1, index, .remove, none, none, none, none, none, none, originalIndex⟩

def replaceOp (index : Nat) (newText : String) (originalIndex : Nat) : InPlaceOp :=
  ⟨1, index, .replace, some newText, none, none, none, none, none, originalIndex⟩

theorem in_place_batch_stable_texts :
    (textEngine.inPlacePass threeTexts [removeOp 0 0, replaceOp 2 "trois" 1]).1 1 =
      patch (fun i =>
        ((onPage 1 [removeOp 0 0, replaceOp 2 "trois" 1]).find? fun op => op.index = i).map
          textEngine.edit) (threeTexts 1) :=
  in_place_batch_stable textEngine threeTexts (by decide) (by decide)

/-! ## Several operations on one element -/

/-- Only the last operation queued for each element. -/
def keepLast : List InPlaceOp → List InPlaceOp
  | [] => []
  | op :: ops =>
    if ops.any fun later => later.pageNumber = op.pageNumber && later.index = op.index then
      keepLast ops
    else op :: keepLast ops

theorem keepLast_sublist (ops : List InPlaceOp) : (keepLast ops).Sublist ops := by
  induction ops with
  | nil => exact List.Sublist.refl _
  | cons op ops ih =>
    rw [keepLast]
    split
    · exact ih.cons op
    · exact ih.cons_cons op

/-- The operations on one element. -/
def onElement (page i : Nat) (ops : List InPlaceOp) : List InPlaceOp :=
  (onPage page ops).filter fun op => op.index = i

theorem mem_onElement {page i : Nat} {ops : List InPlaceOp} {op : InPlaceOp} :
    op ∈ onElement page i ops ↔ op ∈ ops ∧ op.pageNumber = page ∧ op.index = i := by
  simp only [onElement, onPage, List.mem_filter, decide_eq_true_eq, and_assoc]

theorem onElement_cons (page i : Nat) (op : InPlaceOp) (ops : List InPlaceOp) :
    onElement page i (op :: ops) =
      if op.pageNumber = page ∧ op.index = i then op :: onElement page i ops
      else onElement page i ops := by
  by_cases page' : op.pageNumber = page <;> by_cases index' : op.index = i <;>
    simp [onElement, onPage, page', index']

theorem onElement_keepLast (page i : Nat) (ops : List InPlaceOp) :
    onElement page i (keepLast ops) = (onElement page i ops).getLast?.toList := by
  induction ops with
  | nil => rfl
  | cons op ops ih =>
    rw [onElement_cons, keepLast]
    by_cases here : op.pageNumber = page ∧ op.index = i
    · obtain ⟨rfl, rfl⟩ := here
      simp only [and_self, if_true]
      split
      · rename_i overtaken
        obtain ⟨later, mem, same⟩ := List.any_eq_true.mp overtaken
        simp only [Bool.and_eq_true, decide_eq_true_eq] at same
        have behind := mem_onElement.mpr ⟨mem, same⟩
        rw [ih, List.getLast?_cons_of_ne_nil (List.ne_nil_of_mem behind)]
      · rename_i last
        have none_behind : onElement op.pageNumber op.index ops = [] := by
          apply List.eq_nil_iff_forall_not_mem.mpr
          intro later mem
          apply last
          obtain ⟨mem, same⟩ := mem_onElement.mp mem
          refine List.any_eq_true.mpr ⟨later, mem, ?_⟩
          simpa only [Bool.and_eq_true, decide_eq_true_eq] using same
        rw [onElement_cons, if_pos ⟨rfl, rfl⟩, ih, none_behind]
        rfl
    · rw [if_neg here]
      split
      · exact ih
      · rw [onElement_cons, if_neg here]
        exact ih

theorem editsOf_keepLast (engine : Engine ε) (page i : Nat) (ops : List InPlaceOp) :
    engine.editsOf (onPage page (keepLast ops)) i =
      (engine.editsOf (onPage page ops) i).getLast?.toList := by
  have last : engine.editsOf (onPage page (keepLast ops)) i =
      (onElement page i (keepLast ops)).map engine.edit := rfl
  have all : engine.editsOf (onPage page ops) i = (onElement page i ops).map engine.edit := rfl
  rw [last, all, onElement_keepLast, List.getLast?_map]
  cases (onElement page i ops).getLast? <;> rfl

/-- **The last operation on an element wins just when it alone does what they all do**: it changes
the element, none of them removes it and together they change it alike; or it removes the element
and no other does, unless what stands behind the element is removed too. -/
theorem last_operation_wins_iff (engine : Engine ε) (doc : Document ε) {ops : List InPlaceOp}
    {page : Nat} (stable : ∀ op ∈ onPage page ops, op.kind ≠ .reorder) :
    (engine.inPlacePass doc ops).1 page = (engine.inPlacePass doc (keepLast ops)).1 page ↔
      LastWins (engine.editsOf (onPage page ops)) (doc page) := by
  have stable' : ∀ op ∈ onPage page (keepLast ops), op.kind ≠ .reorder := fun op hop =>
    stable op (((keepLast_sublist ops).filter _).subset hop)
  have single : ∀ i, (engine.editsOf (onPage page (keepLast ops)) i).length ≤ 1 := by
    intro i
    rw [editsOf_keepLast]
    cases (engine.editsOf (onPage page ops) i).getLast? <;> simp
  have kept : (engine.inPlacePass doc (keepLast ops)).1 page =
      patch (fun i => (engine.editsOf (onPage page ops) i).getLast?) (doc page) := by
    rw [inPlacePass_settles engine doc stable', settle_single single]
    apply patch_congr
    intro i
    rw [editsOf_keepLast]
    cases (engine.editsOf (onPage page ops) i).getLast? <;> rfl
  rw [inPlacePass_settles engine doc stable, kept, settle_eq_patch_iff]

theorem last_operation_wins_replaced :
    (textEngine.inPlacePass threeTexts [replaceOp 0 "un" 0, replaceOp 0 "eins" 1]).1 1 =
        (textEngine.inPlacePass threeTexts (keepLast [replaceOp 0 "un" 0, replaceOp 0 "eins" 1])).1
          1 ↔
      LastWins (textEngine.editsOf (onPage 1 [replaceOp 0 "un" 0, replaceOp 0 "eins" 1]))
        (threeTexts 1) :=
  last_operation_wins_iff textEngine threeTexts (by decide)

/-- A text is deleted twice: the second removal takes the text behind it. -/
theorem second_removal_takes_neighbour :
    (textEngine.inPlacePass threeTexts [removeOp 0 0, removeOp 0 1]).1 1 = ["three"] ∧
      (textEngine.inPlacePass threeTexts [removeOp 0 0, removeOp 0 1]).1 1 ≠
        (textEngine.inPlacePass threeTexts (keepLast [removeOp 0 0, removeOp 0 1])).1 1 := by
  decide

end

end GigaPdf
