import GigaPdf.Editor.InPlace

/-!
# The reorders of a batch

They come last, and name the elements by the indices that the batch found. Removals have renumbered
the page by then, and so does every reorder for the next one. The elements carry the positions at
which the pass finds them, which no engine call looks at.
-/

namespace GigaPdf

open Positions Reordering

section
variable {ε τ : Type}

def CallResult.tag (n : τ) : CallResult ε → CallResult (ε × τ)
  | .changed e => .changed (e, n)
  | .refused => .refused
  | .raised => .raised

/-- The engine on elements that carry a tag, such as a position. -/
def Engine.tagged (engine : Engine ε) : Engine (ε × τ) where
  replaceText text e := (engine.replaceText text e.1).tag e.2
  moveElement d e := (engine.moveElement d e.1).tag e.2
  transformElement m e := (engine.transformElement m e.1).tag e.2
  setPathStyle s e := (engine.setPathStyle s e.1).tag e.2
  setElementOpacity o e := (engine.setElementOpacity o e.1).tag e.2

def tagCall (call : InPlaceCounter × (ε → CallResult ε)) :
    InPlaceCounter × (ε × τ → CallResult (ε × τ)) :=
  (call.1, fun e => (call.2 e.1).tag e.2)

theorem calls_tagged (engine : Engine ε) (op : InPlaceOp) :
    (engine.tagged : Engine (ε × τ)).calls op = (engine.calls op).map tagCall := by
  have geometry : (op.matrix.toList.map fun m =>
      (InPlaceCounter.transformed, (engine.tagged : Engine (ε × τ)).transformElement m)) =
      (op.matrix.toList.map fun m =>
        (InPlaceCounter.transformed, engine.transformElement m)).map tagCall := by
    rw [List.map_map]
    rfl
  rw [Engine.calls, Engine.calls, geometry]
  cases op.kind <;> simp only [List.map_append, List.map_map, List.map_cons, List.map_nil] <;> rfl

theorem perform_tagged (calls : List (InPlaceCounter × (ε → CallResult ε))) (e : ε) (n : τ) :
    (perform (calls.map tagCall) (e, n)).1 = ((perform calls e).1, n) := by
  induction calls generalizing e with
  | nil => rfl
  | cons call calls ih =>
    obtain ⟨counter, call⟩ := call
    rw [List.map_cons, perform, perform, tagCall]
    cases result : call e with
    | changed e' => simp only [result, CallResult.tag, ih]
    | refused => simp only [result, CallResult.tag, ih]
    | raised => simp only [result, CallResult.tag]

theorem edit_tagged (engine : Engine ε) (op : InPlaceOp) :
    Agree Prod.fst ((engine.tagged : Engine (ε × τ)).edit op) (engine.edit op) := by
  rw [Engine.edit, Engine.edit]
  split
  · trivial
  · rintro ⟨e, n⟩
    show (perform ((engine.tagged : Engine (ε × τ)).calls op) (e, n)).1.1 = (perform (engine.calls op) e).1
    rw [calls_tagged, perform_tagged]

/-- What an operation does to the tags that the elements carry. -/
def tagEdit (op : InPlaceOp) : Edit τ := if op.kind = .remove then none else some id

theorem edit_tags (engine : Engine ε) (op : InPlaceOp) :
    Agree Prod.snd ((engine.tagged : Engine (ε × τ)).edit op) (tagEdit op) := by
  rw [Engine.edit, tagEdit]
  split
  · trivial
  · rintro ⟨e, n⟩
    show (perform ((engine.tagged : Engine (ε × τ)).calls op) (e, n)).1.2 = n
    rw [calls_tagged, perform_tagged]

theorem tagEdit_removes (op : InPlaceOp) : Removes (tagEdit op : Edit τ) := by
  rw [tagEdit]
  split
  · exact .inl rfl
  · exact .inr rfl

/-! ## Reorders as moves -/

/-- The reorders in the order in which they were queued, as moves. -/
def queuedMoves (ops : List InPlaceOp) : List (Nat × Bool) :=
  (reorderOps ops).filterMap fun op => op.toFront.map fun toFront => (op.index, toFront)

theorem reorderStep_map {β : Type} (g : ε → β) (page : PagePass ε) (op : InPlaceOp) :
    (reorderStep page op).elements.map g =
      moveAll (op.toFront.map fun toFront => (op.index, toFront)).toList (page.elements.map g) := by
  cases front : op.toFront with
  | none => rw [reorderStep, front]; rfl
  | some toFront =>
    have moved : moveAll ((some toFront).map fun toFront => (op.index, toFront)).toList
        (page.elements.map g) = moveAt op.index toFront (page.elements.map g) := rfl
    rw [reorderStep, front, moved]
    by_cases bound : op.index < page.elements.length
    · simp only [bound, if_true, map_moveAt]
    · have past : (page.elements.map g)[op.index]? = none := by
        rw [List.getElem?_eq_none_iff, List.length_map]
        omega
      simp only [bound, if_false, moveAt, past]

theorem moveAll_append (first second : List (Nat × Bool)) (l : List ε) :
    moveAll (first ++ second) l = moveAll second (moveAll first l) := List.foldl_append

theorem foldl_reorderStep_map {β : Type} (g : ε → β) (ops : List InPlaceOp) (page : PagePass ε) :
    (ops.foldl reorderStep page).elements.map g =
      moveAll (ops.filterMap fun op => op.toFront.map fun toFront => (op.index, toFront))
        (page.elements.map g) := by
  induction ops generalizing page with
  | nil => rfl
  | cons op ops ih =>
    rw [List.foldl_cons, ih, reorderStep_map, ← moveAll_append, List.filterMap_cons]
    cases op.toFront <;> rfl

/-- The tags change nothing of what the pass does to the elements. -/
theorem inPlacePage_tagged (engine : Engine ε) (elements : List (ε × τ)) (ops : List InPlaceOp) :
    (engine.tagged.inPlacePage elements ops).elements.map Prod.fst =
      (engine.inPlacePage (elements.map Prod.fst) ops).elements := by
  have stable : ((stableOps ops).foldl engine.tagged.stableStep ⟨elements, []⟩).elements.map
      Prod.fst =
      ((stableOps ops).foldl engine.stableStep ⟨elements.map Prod.fst, []⟩).elements.map id := by
    rw [foldl_stableStep, foldl_stableStep, Engine.edits, map_editAll (edit_tagged engine),
      List.map_id]
    rfl
  have same := foldl_reorderStep_map id (reorderOps ops)
    ((stableOps ops).foldl engine.stableStep ⟨elements.map Prod.fst, []⟩)
  rw [Engine.inPlacePage, foldl_reorderStep_map, stable, ← same, List.map_id]
  rfl

/-- Without removals and reorders every element keeps its place. -/
theorem inPlacePage_tags (engine : Engine ε) (elements : List (ε × τ)) {ops : List InPlaceOp}
    (stable : ∀ op ∈ ops, op.kind ≠ .reorder) (kept : ∀ op ∈ ops, op.kind ≠ .remove) :
    (engine.tagged.inPlacePage elements ops).elements.map Prod.snd = elements.map Prod.snd := by
  have stays : ∀ (ops' : List InPlaceOp) (tags : List τ), (∀ op ∈ ops', op.kind ≠ .remove) →
      editAll (ops'.map fun op => (op.index, (tagEdit op : Edit τ))) tags = tags := by
    intro ops' tags kept
    induction ops' with
    | nil => rfl
    | cons op ops' ih =>
      have here : (tagEdit op : Edit τ) = some id := by
        simp [tagEdit, kept op (List.mem_cons_self ..)]
      rw [List.map_cons, editAll_cons, here, editAt_some, List.modify_id,
        ih fun op hop => kept op (List.mem_cons_of_mem _ hop)]
  have kept' : ∀ op ∈ stableOps ops, op.kind ≠ .remove := by
    intro op hop
    rw [stableOps, List.mem_insertionSort] at hop
    exact kept op (List.mem_filter.mp hop).1
  rw [Engine.inPlacePage, reorderOps_eq_nil stable, List.foldl_nil, foldl_stableStep, Engine.edits,
    map_editAll (edit_tags engine), stays _ _ kept']

/-! ## Where the reorders find their elements -/

/-- How often an element is removed. -/
def removalsAt (ops : List InPlaceOp) (i : Nat) : Nat :=
  ops.countP fun op => op.kind = .remove ∧ op.index = i

/-- What the removals leave of a page of `n` elements. -/
def surviving (n : Nat) (ops : List InPlaceOp) : List Nat :=
  (List.range n).filter fun i => removalsAt ops i = 0

/-- No element is removed twice, unless those behind it are removed too. -/
def RemovedOnce (n : Nat) (ops : List InPlaceOp) : Prop :=
  ∀ i < n, 1 < removalsAt ops i → ∀ j, i < j → j < n → 0 < removalsAt ops j

/-- The page as the reorders find it. -/
def Engine.stablePhase (engine : Engine ε) (elements : List ε) (ops : List InPlaceOp) :
    PagePass (ε × Nat) :=
  (stableOps ops).foldl engine.tagged.stableStep ⟨elements.zipIdx, []⟩

theorem stablePhase_positions (engine : Engine ε) (elements : List ε) (ops : List InPlaceOp) :
    (engine.stablePhase elements ops).elements.map Prod.snd =
      settle (fun i => List.replicate (removalsAt ops i) none) (List.range elements.length) := by
  have start : elements.zipIdx.map Prod.snd = List.range elements.length := by
    rw [List.zipIdx_map_snd, List.range_eq_range']
  have descending : ((stableOps ops).map fun op => (op.index, (tagEdit op : Edit Nat))).Pairwise
      fun e e' => e'.1 ≤ e.1 := by
    rw [List.pairwise_map]
    exact stableOps_descending ops
  have groups : ∀ i, editsAt ((stableOps ops).map fun op => (op.index, (tagEdit op : Edit Nat))) i =
      ((stableOnly ops).filter fun op => op.index = i).map (tagEdit : InPlaceOp → Edit Nat) := by
    intro i
    rw [editsAt, List.filter_map, List.map_map]
    have sorted := filter_insertionSort InPlaceOp.index (stableOnly ops) i
    exact congrArg (List.map (tagEdit : InPlaceOp → Edit Nat)) sorted
  have count : ∀ i, removals
      (((stableOnly ops).filter fun op => op.index = i).map (tagEdit : InPlaceOp → Edit Nat)) =
      removalsAt ops i := by
    intro i
    rw [removals, removalsAt, List.countP_map, stableOnly, List.filter_filter, List.countP_filter]
    apply List.countP_congr
    intro op _
    by_cases removed : op.kind = .remove <;> simp [tagEdit, removed]
  rw [Engine.stablePhase, foldl_stableStep, Engine.edits, map_editAll (edit_tags engine), start,
    editAll_descending descending, settle_congr groups, settle_removes]
  · simp only [count]
  · intro i e he
    obtain ⟨op, -, rfl⟩ := List.mem_map.mp he
    exact tagEdit_removes op

theorem surviving_eq_patch (n : Nat) (ops : List InPlaceOp) :
    surviving n ops =
      patch (fun i => if removalsAt ops i = 0 then none else some none) (List.range n) := by
  have same : ∀ i, (if removalsAt ops i = 0 then none else some (none : Edit Nat)) =
      if removalsAt ops i ≠ 0 then some none else none := by
    intro i
    by_cases h : removalsAt ops i = 0 <;> simp [h]
  rw [patch_congr same, patch_range fun i => removalsAt ops i ≠ 0, surviving]
  simp only [ne_eq, not_not]

theorem stablePhase_survivors_iff (engine : Engine ε) (elements : List ε) (ops : List InPlaceOp) :
    (engine.stablePhase elements ops).elements.map Prod.snd = surviving elements.length ops ↔
      RemovedOnce elements.length ops := by
  rw [stablePhase_positions, surviving_eq_patch, settle_removals_iff, List.length_range]
  rfl

/-- Every reorder finds at its index the element that stood there before the pass. -/
def ReordersHit : PagePass (ε × Nat) → List InPlaceOp → Prop
  | _, [] => True
  | page, op :: ops =>
    (op.toFront ≠ none → (page.elements[op.index]?).map Prod.snd = some op.index) ∧
      ReordersHit (reorderStep page op) ops

theorem reordersHit_iff (page : PagePass (ε × Nat)) (ops : List InPlaceOp) :
    ReordersHit page ops ↔
      Hits (ops.filterMap fun op => op.toFront.map fun toFront => (op.index, toFront))
        (page.elements.map Prod.snd) := by
  induction ops generalizing page with
  | nil => exact iff_of_true trivial hits_nil
  | cons op ops ih =>
    rw [ReordersHit, ih, reorderStep_map, List.filterMap_cons]
    cases op.toFront with
    | none => simp [moveAll]
    | some toFront =>
      simp only [Option.map_some, Option.toList_some, hits_cons, List.getElem?_map, ne_eq,
        reduceCtorEq, not_false_eq_true, true_imp_iff]
      rfl

/-- The positions that the elements had before the pass, in the order in which the page paints them
after it. -/
def Engine.paintOrder (engine : Engine ε) (elements : List ε) (ops : List InPlaceOp) : List Nat :=
  (engine.tagged.inPlacePage elements.zipIdx ops).elements.map Prod.snd

/-- Before each reorder as many of the surviving elements are painted before its element as its
index says: those that stood before it, moved to where the earlier reorders took them. -/
def CountedInPlace (n : Nat) (ops : List InPlaceOp) : Prop :=
  ∀ earlier m later, queuedMoves ops = earlier ++ m :: later →
    (surviving n ops).countP (precedes (fun i j => i < j) earlier · m.1) = m.1

theorem pairwise_range_lt (n : Nat) (keep : Nat → Bool) :
    ((List.range n).filter keep).Pairwise fun i j => decide (i < j) = true := by
  apply List.Pairwise.sublist List.filter_sublist
  apply List.pairwise_lt_range.imp
  intro i j lt
  exact decide_eq_true lt

theorem mem_queuedMoves {ops : List InPlaceOp} {m : Nat × Bool} (hm : m ∈ queuedMoves ops) :
    ∃ op ∈ ops, op.kind = .reorder ∧ op.index = m.1 := by
  obtain ⟨op, hop, front⟩ := List.mem_filterMap.mp hm
  obtain ⟨toFront, -, rfl⟩ := Option.map_eq_some_iff.mp front
  rw [reorderOps, List.mem_insertionSort, List.mem_filter, decide_eq_true_eq] at hop
  exact ⟨op, hop.1, hop.2, rfl⟩

/-- **The reorders of a batch move the elements that they were captured for**, and the page is
painted as if those were moved one after another, just when every removal takes its own element and
the reorders find their elements where they count them. -/
theorem reorders_hit_iff (engine : Engine ε) {elements : List ε} {ops : List InPlaceOp}
    (valid : ∀ op ∈ ops, op.kind = .reorder → op.index < elements.length)
    (kept : ∀ op ∈ ops, op.kind = .reorder → removalsAt ops op.index = 0) :
    ReordersHit (engine.stablePhase elements ops) (reorderOps ops) ∧
        engine.paintOrder elements ops =
          moveItems (queuedMoves ops) (surviving elements.length ops) ↔
      RemovedOnce elements.length ops ∧ CountedInPlace elements.length ops := by
  have asymm : Asymm fun i j : Nat => decide (i < j) := by
    intro i j lt
    simp only [decide_eq_true_eq, decide_eq_false_iff_not] at lt ⊢
    omega
  have sorted := pairwise_range_lt elements.length fun i => removalsAt ops i = 0
  have nodup : (surviving elements.length ops).Nodup := List.nodup_range.filter _
  have counted : CountedInPlace elements.length ops ↔
      Hits (queuedMoves ops) (surviving elements.length ops) := by
    rw [hits_iff_inPlace asymm nodup sorted]
    constructor
    · intro all earlier m later split
      have mem : m ∈ queuedMoves ops := by rw [split]; simp
      obtain ⟨op, hop, reorder, index⟩ := mem_queuedMoves mem
      have here : m.1 ∈ surviving elements.length ops := by
        rw [← index, surviving, List.mem_filter, List.mem_range, decide_eq_true_eq]
        exact ⟨valid op hop reorder, kept op hop reorder⟩
      exact ⟨here, all earlier m later split⟩
    · intro all earlier m later split
      exact (all earlier m later split).2
  have order : engine.paintOrder elements ops =
      moveAll (queuedMoves ops) ((engine.stablePhase elements ops).elements.map Prod.snd) :=
    foldl_reorderStep_map Prod.snd (reorderOps ops) _
  rw [counted, ← stablePhase_survivors_iff engine, reordersHit_iff, order]
  constructor
  · rintro ⟨hits, painted⟩
    have found : Hits (queuedMoves ops)
        ((engine.stablePhase elements ops).elements.map Prod.snd) := hits
    have sub : ((engine.stablePhase elements ops).elements.map Prod.snd).Sublist
        (List.range elements.length) := by
      rw [stablePhase_positions]
      apply settle_sublist
      intro i e he
      exact .inl (List.eq_of_mem_replicate he)
    rw [found.moveAll_eq (List.nodup_range.sublist sub)] at painted
    have perm : ((engine.stablePhase elements ops).elements.map Prod.snd).Perm
        (surviving elements.length ops) :=
      (moveItems_perm _ _).symm.trans ((List.Perm.of_eq painted).trans (moveItems_perm _ _))
    have survivors : (engine.stablePhase elements ops).elements.map Prod.snd =
        surviving elements.length ops := by
      apply perm.eq_of_pairwise _ (List.pairwise_lt_range.sublist sub)
        (List.pairwise_lt_range.sublist List.filter_sublist)
      intro i j _ _ lt lt'
      omega
    rw [survivors] at found
    exact ⟨survivors, found⟩
  · rintro ⟨survivors, hits⟩
    rw [survivors]
    exact ⟨hits, hits.moveAll_eq nodup⟩

def reorderOp (index : Nat) (toFront : Bool) (originalIndex : Nat) : InPlaceOp :=
  ⟨1, index, .reorder, none, none, none, none, none, some toFront, originalIndex⟩

theorem reorders_hit_single :
    ReordersHit (textEngine.stablePhase ["one", "two", "three"] [reorderOp 0 true 0])
          (reorderOps [reorderOp 0 true 0]) ∧
        textEngine.paintOrder ["one", "two", "three"] [reorderOp 0 true 0] =
          moveItems (queuedMoves [reorderOp 0 true 0]) (surviving 3 [reorderOp 0 true 0]) ↔
      RemovedOnce 3 [reorderOp 0 true 0] ∧ CountedInPlace 3 [reorderOp 0 true 0] :=
  reorders_hit_iff textEngine (by decide) (by decide)

/-- The first text is deleted and the second is brought to the front: the reorder finds the third
at the index of the second, and leaves it in front. -/
theorem reorder_hits_neighbour :
    textEngine.paintOrder ["one", "two", "three"] [removeOp 0 0, reorderOp 1 true 1] = [1, 2] ∧
      ¬(ReordersHit
            (textEngine.stablePhase ["one", "two", "three"] [removeOp 0 0, reorderOp 1 true 1])
            (reorderOps [removeOp 0 0, reorderOp 1 true 1]) ∧
          textEngine.paintOrder ["one", "two", "three"] [removeOp 0 0, reorderOp 1 true 1] =
            moveItems (queuedMoves [removeOp 0 0, reorderOp 1 true 1])
              (surviving 3 [removeOp 0 0, reorderOp 1 true 1])) := by
  have painted : textEngine.paintOrder ["one", "two", "three"]
      [removeOp 0 0, reorderOp 1 true 1] = [1, 2] := by decide
  have wanted : moveItems (queuedMoves [removeOp 0 0, reorderOp 1 true 1])
      (surviving 3 [removeOp 0 0, reorderOp 1 true 1]) = [2, 1] := by decide
  refine ⟨painted, fun hit => ?_⟩
  have order := hit.2
  rw [painted, wanted] at order
  exact absurd order (by decide)

end

end GigaPdf
