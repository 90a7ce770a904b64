import GigaPdf.Lib.Runs
import GigaPdf.Lib.Timeline
import Mathlib.Data.List.Forall2
import Mathlib.Order.Lattice

/-!
# The history of a document

`HistoryManager` for one document. A snapshot holds the pages that its edit has changed, and to
restore it writes these pages into the document as it is. Page numbers start at 1, and a page is
what `model_dump` keeps of it.
-/

namespace GigaPdf

open Runs

/-- `rest` is the document but for its pages: the metadata, the outlines, the layers. -/
structure SceneGraph (π ρ : Type) where
  pages : List π
  rest : ρ
deriving DecidableEq

structure DocumentSnapshot (π : Type) where
  action : String
  pagesData : List (Nat × π)
  affectedPages : List Nat
deriving DecidableEq

structure History (π : Type) where
  snapshots : List (DocumentSnapshot π)
  position : Nat
deriving DecidableEq

section
variable {π ρ : Type}

/-! ## The manager -/

/-- Without affected pages, all pages are held. -/
def createSnapshot (sceneGraph : SceneGraph π ρ) (action : String) (affectedPages : List Nat) :
    DocumentSnapshot π :=
  let pagesToStore :=
    if affectedPages = [] then List.range' 1 sceneGraph.pages.length else affectedPages
  { action
    pagesData := pagesToStore.filterMap fun pageNum =>
      if pageNum ≤ sceneGraph.pages.length then
        sceneGraph.pages[pageNum - 1]?.map fun page => (pageNum, page)
      else none
    affectedPages }

def restorePages (pagesData : List (Nat × π)) (pages : List π) : List π :=
  pagesData.foldl (fun pages data =>
    if data.1 ≤ pages.length then pages.set (data.1 - 1) data.2 else pages) pages

def restoreSnapshot (snapshot : DocumentSnapshot π) (sceneGraph : SceneGraph π ρ) :
    SceneGraph π ρ :=
  { sceneGraph with pages := restorePages snapshot.pagesData sceneGraph.pages }

namespace History

def initDocument (sceneGraph : SceneGraph π ρ) : History π :=
  ⟨[createSnapshot sceneGraph "Document opened" (List.range' 1 sceneGraph.pages.length)], 0⟩

variable (history : History π)

def pushState (maxSnapshots : Int) (sceneGraph : SceneGraph π ρ) (action : String)
    (affectedPages : List Nat) : History π :=
  let snapshots := history.snapshots.take (history.position + 1) ++
    [createSnapshot sceneGraph action affectedPages]
  if maxSnapshots < snapshots.length then ⟨snapshots.tail, snapshots.length - 1 - 1⟩
  else ⟨snapshots, snapshots.length - 1⟩

def actionAt (pos : Nat) : String := (history.snapshots[pos]?.map (·.action)).getD ""

def undoLoop : Nat → Nat → List String × Nat
  | 0, pos => ([], pos)
  | steps + 1, pos =>
    if pos ≤ 0 then ([], pos)
    else
      let (undone, target) := undoLoop steps (pos - 1)
      (history.actionAt pos :: undone, target)

def redoLoop : Nat → Nat → List String × Nat
  | 0, pos => ([], pos)
  | steps + 1, pos =>
    if history.snapshots.length - 1 ≤ pos then ([], pos)
    else
      let (redone, target) := redoLoop steps (pos + 1)
      (history.actionAt (pos + 1) :: redone, target)

/-- Restore the snapshot at a position, and go there. -/
def restoreAt (target : Nat) (sceneGraph : SceneGraph π ρ) : Option (History π × SceneGraph π ρ) :=
  history.snapshots[target]?.map fun snapshot =>
    ({ history with position := target }, restoreSnapshot snapshot sceneGraph)

def moveTo (target : Nat) (sceneGraph : SceneGraph π ρ) : Option (History π × SceneGraph π ρ) :=
  if target = history.position then some (history, sceneGraph)
  else history.restoreAt target sceneGraph

def undo (steps : Int) (sceneGraph : SceneGraph π ρ) :
    Option (List String × History π × SceneGraph π ρ) :=
  let (undone, target) := history.undoLoop steps.toNat history.position
  (history.moveTo target sceneGraph).map fun moved => (undone, moved)

def redo (steps : Int) (sceneGraph : SceneGraph π ρ) :
    Option (List String × History π × SceneGraph π ρ) :=
  let (redone, target) := history.redoLoop steps.toNat history.position
  (history.moveTo target sceneGraph).map fun moved => (redone, moved)

/-- An index out of range is refused. -/
def gotoIndex (index : Int) (sceneGraph : SceneGraph π ρ) : Option (History π × SceneGraph π ρ) :=
  if index < 0 ∨ history.snapshots.length ≤ index then none
  else history.restoreAt index.toNat sceneGraph

end History

/-! ## Runs -/

/-- The document, its history, and the graphs that were current when the snapshots were pushed. -/
structure HistoryRun (π ρ : Type) where
  sceneGraph : SceneGraph π ρ
  history : History π
  pushed : Timeline (SceneGraph π ρ)

inductive HistoryStep (π ρ : Type)
  | edit (sceneGraph : SceneGraph π ρ) (action : String) (affectedPages : List Nat)
  | undo (steps : Int)
  | redo (steps : Int)
  | gotoIndex (index : Int)

namespace HistoryRun

def start (sceneGraph : SceneGraph π ρ) : HistoryRun π ρ :=
  ⟨sceneGraph, .initDocument sceneGraph, .start sceneGraph⟩

def step (maxSnapshots : Int) (r : HistoryRun π ρ) : HistoryStep π ρ → Option (HistoryRun π ρ)
  | .edit sceneGraph action affectedPages =>
    some ⟨sceneGraph, r.history.pushState maxSnapshots sceneGraph action affectedPages,
      r.pushed.push maxSnapshots sceneGraph⟩
  | .undo steps => (r.history.undo steps r.sceneGraph).map fun (_, history, sceneGraph) =>
    ⟨sceneGraph, history, r.pushed.back steps.toNat⟩
  | .redo steps => (r.history.redo steps r.sceneGraph).map fun (_, history, sceneGraph) =>
    ⟨sceneGraph, history, r.pushed.forward steps.toNat⟩
  | .gotoIndex index =>
    if h : index.toNat < r.pushed.states.length then
      (r.history.gotoIndex index r.sceneGraph).map fun (history, sceneGraph) =>
        ⟨sceneGraph, history, r.pushed.moveTo index.toNat h⟩
    else none

/-- The document is what it was when the snapshot at the current position was pushed. -/
def Exact (r : HistoryRun π ρ) : Prop :=
  r.pushed.states[r.history.position]? = some r.sceneGraph

/-- An edit names the pages that it has changed. -/
def ChangedPages (r : HistoryRun π ρ) : HistoryStep π ρ → Prop
  | .edit sceneGraph _ affectedPages =>
    ∀ pageNum, pageNum ∈ affectedPages ↔
      1 ≤ pageNum ∧ r.sceneGraph.pages[pageNum - 1]? ≠ sceneGraph.pages[pageNum - 1]?
  | .undo _ | .redo _ | .gotoIndex _ => True

/-- The position that a step restores. -/
def target (r : HistoryRun π ρ) : HistoryStep π ρ → Option Nat
  | .edit .. => none
  | .undo steps => some (r.history.position - steps.toNat)
  | .redo steps => some (min (r.history.position + steps.toNat) (r.history.snapshots.length - 1))
  | .gotoIndex index => some index.toNat

end HistoryRun

/-- Two graphs differ at most in the pages that the snapshot holds. -/
structure DocumentSnapshot.Covers (snapshot : DocumentSnapshot π) (now was : SceneGraph π ρ) :
    Prop where
  rest : now.rest = was.rest
  count : now.pages.length = was.pages.length
  others : ∀ pageNum, 1 ≤ pageNum → pageNum ∉ snapshot.pagesData.map Prod.fst →
    now.pages[pageNum - 1]? = was.pages[pageNum - 1]?

/-- Since then only pages have changed that the snapshot to be restored holds. -/
def HistoryRun.SoundRestore (r : HistoryRun π ρ) (s : HistoryStep π ρ) : Prop :=
  ∀ i ∈ r.target s, ∀ snapshot ∈ r.history.snapshots[i]?, ∀ was ∈ r.pushed.states[i]?,
    snapshot.Covers r.sceneGraph was

/-! ## What a restore leaves -/

/-- The pages of the snapshot are those of the graph. -/
def DocumentSnapshot.Holds (snapshot : DocumentSnapshot π) (was : SceneGraph π ρ) : Prop :=
  ∀ data ∈ snapshot.pagesData, 1 ≤ data.1 ∧ was.pages[data.1 - 1]? = some data.2

theorem createSnapshot_holds (sceneGraph : SceneGraph π ρ) (action : String)
    {affectedPages : List Nat} (numbers : ∀ pageNum ∈ affectedPages, 1 ≤ pageNum) :
    (createSnapshot sceneGraph action affectedPages).Holds sceneGraph := by
  intro data mem
  obtain ⟨pageNum, stored, held⟩ := List.mem_filterMap.mp mem
  obtain ⟨-, held⟩ := Option.ite_none_right_eq_some.mp held
  obtain ⟨page, found, rfl⟩ := Option.map_eq_some_iff.mp held
  refine ⟨?_, found⟩
  split at stored
  · exact (List.mem_range'_1.mp stored).1
  · exact numbers pageNum stored

theorem length_restorePages (pagesData : List (Nat × π)) (pages : List π) :
    (restorePages pagesData pages).length = pages.length := by
  induction pagesData generalizing pages with
  | nil => rfl
  | cons data pagesData ih =>
    rw [restorePages, List.foldl_cons, ← restorePages, ih]
    split
    · rw [List.length_set]
    · rfl

/-- The pages that are held are those of the graph again, and the others are left alone. -/
theorem getElem?_restorePages {was : List π} {pagesData : List (Nat × π)}
    (holds : ∀ data ∈ pagesData, 1 ≤ data.1 ∧ was[data.1 - 1]? = some data.2) (pages : List π)
    (i : Nat) :
    (restorePages pagesData pages)[i]? =
      if i < pages.length ∧ i + 1 ∈ pagesData.map Prod.fst then was[i]? else pages[i]? := by
  induction pagesData generalizing pages with
  | nil => simp [restorePages]
  | cons data pagesData ih =>
    obtain ⟨number, held⟩ := holds data (List.mem_cons_self ..)
    have rest := ih (fun other mem => holds other (List.mem_cons_of_mem _ mem))
    rw [restorePages, List.foldl_cons, ← restorePages, rest, List.map_cons]
    by_cases fits : data.1 ≤ pages.length
    · rw [if_pos fits, List.length_set, List.getElem?_set]
      by_cases here : data.1 - 1 = i
      · subst here
        have back : data.1 - 1 + 1 = data.1 := by omega
        have inside : data.1 - 1 < pages.length := by omega
        simp [back, inside, held]
      · have other : i + 1 ≠ data.1 := by omega
        simp only [here, other, List.mem_cons, false_or, if_false]
    · rw [if_neg fits]
      by_cases inside : i < pages.length
      · have other : i + 1 ≠ data.1 := by omega
        simp only [other, List.mem_cons, false_or]
      · simp only [inside, false_and, if_false]

/-- **A restore is exact just when only pages that the snapshot holds have changed.** -/
theorem restoreSnapshot_eq_iff {snapshot : DocumentSnapshot π} {now was : SceneGraph π ρ}
    (holds : snapshot.Holds was) :
    restoreSnapshot snapshot now = was ↔ snapshot.Covers now was := by
  have page := getElem?_restorePages holds now.pages
  constructor
  · rintro rfl
    refine ⟨rfl, (length_restorePages _ _).symm, fun pageNum number other => ?_⟩
    have back : pageNum - 1 + 1 = pageNum := by omega
    have left := page (pageNum - 1)
    rw [back, if_neg fun held => other held.2] at left
    exact left.symm
  · intro covers
    have pages : restorePages snapshot.pagesData now.pages = was.pages := by
      apply List.ext_getElem?
      intro i
      rw [page i]
      by_cases held : i + 1 ∈ snapshot.pagesData.map Prod.fst
      · by_cases inside : i < now.pages.length
        · rw [if_pos ⟨inside, held⟩]
        · rw [if_neg fun both => inside both.1, List.getElem?_eq_none (Nat.le_of_not_lt inside),
            List.getElem?_eq_none (covers.count ▸ Nat.le_of_not_lt inside)]
      · rw [if_neg fun both => held both.2]
        exact covers.others (i + 1) (Nat.le_add_left 1 i) held
    cases was
    simp only [restoreSnapshot, SceneGraph.mk.injEq]
    exact ⟨pages, covers.rest⟩

/-! ## The position -/

namespace History

variable {history : History π}

theorem undoLoop_target (steps pos : Nat) : (history.undoLoop steps pos).2 = pos - steps := by
  induction steps generalizing pos with
  | zero => rfl
  | succ steps ih =>
    rw [undoLoop]
    split
    · rename_i first
      change pos = pos - (steps + 1)
      omega
    · change (history.undoLoop steps (pos - 1)).2 = pos - (steps + 1)
      rw [ih]
      omega

theorem redoLoop_target (steps : Nat) {pos : Nat} (valid : pos ≤ history.snapshots.length - 1) :
    (history.redoLoop steps pos).2 = min (pos + steps) (history.snapshots.length - 1) := by
  induction steps generalizing pos with
  | zero => exact (Nat.min_eq_left valid).symm
  | succ steps ih =>
    rw [redoLoop]
    split
    · change pos = min (pos + (steps + 1)) (history.snapshots.length - 1)
      omega
    · change (history.redoLoop steps (pos + 1)).2 =
        min (pos + (steps + 1)) (history.snapshots.length - 1)
      rw [ih (by omega)]
      congr 1
      omega

/-- Where a restore leads, and what it writes. -/
theorem moveTo_eq_some {i : Nat} {now : SceneGraph π ρ} {out : History π × SceneGraph π ρ}
    (h : history.moveTo i now = some out) :
    out.1 = { history with position := i } ∧
      (i = history.position ∧ out.2 = now ∨
        ∃ snapshot, history.snapshots[i]? = some snapshot ∧
          out.2 = restoreSnapshot snapshot now) := by
  rw [moveTo] at h
  split at h
  · rename_i here
    cases h
    subst here
    exact ⟨rfl, .inl ⟨rfl, rfl⟩⟩
  · obtain ⟨snapshot, found, rfl⟩ := Option.map_eq_some_iff.mp h
    exact ⟨rfl, .inr ⟨snapshot, found, rfl⟩⟩

end History

/-! ## The history follows the timeline -/

/-- Each snapshot holds pages of the graph that was pushed with it, and the positions agree. -/
structure History.Follows (history : History π) (pushed : Timeline (SceneGraph π ρ)) : Prop where
  position : history.position = pushed.position
  snapshots : List.Forall₂ DocumentSnapshot.Holds history.snapshots pushed.states

namespace History.Follows

variable {history : History π} {pushed : Timeline (SceneGraph π ρ)}

theorem length (follows : history.Follows pushed) :
    history.snapshots.length = pushed.states.length := follows.snapshots.length_eq

theorem holds (follows : history.Follows pushed) {i : Nat} {snapshot : DocumentSnapshot π}
    {was : SceneGraph π ρ} (found : history.snapshots[i]? = some snapshot)
    (state : pushed.states[i]? = some was) : snapshot.Holds was := by
  obtain ⟨inside, rfl⟩ := List.getElem?_eq_some_iff.mp found
  obtain ⟨inside', rfl⟩ := List.getElem?_eq_some_iff.mp state
  exact follows.snapshots.get inside inside'

theorem initDocument (sceneGraph : SceneGraph π ρ) :
    (History.initDocument sceneGraph).Follows (.start sceneGraph) :=
  ⟨rfl, .cons (createSnapshot_holds sceneGraph _ fun _ mem => (List.mem_range'_1.mp mem).1) .nil⟩

theorem moveTo (follows : history.Follows pushed) {i : Nat} (h : i < pushed.states.length) :
    Follows { history with position := i } (pushed.moveTo i h) := ⟨rfl, follows.snapshots⟩

theorem extended (follows : history.Follows pushed) (sceneGraph : SceneGraph π ρ)
    (action : String) {affectedPages : List Nat}
    (numbers : ∀ pageNum ∈ affectedPages, 1 ≤ pageNum) :
    List.Forall₂ DocumentSnapshot.Holds
      (history.snapshots.take (history.position + 1) ++
        [createSnapshot sceneGraph action affectedPages])
      (pushed.extended sceneGraph) := by
  rw [Timeline.extended, follows.position]
  exact List.rel_append (List.forall₂_take _ follows.snapshots)
    (.cons (createSnapshot_holds sceneGraph action numbers) .nil)

theorem pushState (follows : history.Follows pushed) (maxSnapshots : Int)
    (sceneGraph : SceneGraph π ρ) (action : String) {affectedPages : List Nat}
    (numbers : ∀ pageNum ∈ affectedPages, 1 ≤ pageNum) :
    (history.pushState maxSnapshots sceneGraph action affectedPages).Follows
      (pushed.push maxSnapshots sceneGraph) := by
  have extended := follows.extended sceneGraph action numbers
  have length := extended.length_eq
  rw [Timeline.length_extended] at length
  simp only [History.pushState, Timeline.push, Timeline.length_extended, length]
  split
  · have rest := List.forall₂_drop 1 extended
    rw [List.drop_one, List.drop_one] at rest
    exact ⟨by simp, rest⟩
  · exact ⟨by simp, extended⟩

end History.Follows

namespace HistoryRun

variable {maxSnapshots : Int} {r r' : HistoryRun π ρ}

structure Keeps (maxSnapshots : Int) (r : HistoryRun π ρ) : Prop where
  follows : r.history.Follows r.pushed
  bounded : (r.pushed.states.length : Int) ≤ max 1 maxSnapshots

/-- What a step that restores does. -/
structure Restores (r r' : HistoryRun π ρ) (i : Nat) : Prop where
  history : r'.history = { r.history with position := i }
  pushed : ∃ h, r'.pushed = r.pushed.moveTo i h
  sceneGraph : i = r.history.position ∧ r'.sceneGraph = r.sceneGraph ∨
    ∃ snapshot, r.history.snapshots[i]? = some snapshot ∧
      r'.sceneGraph = restoreSnapshot snapshot r.sceneGraph

theorem Keeps.restores (keeps : Keeps maxSnapshots r) {s : HistoryStep π ρ} {i : Nat}
    (aim : r.target s = some i) (h : r.step maxSnapshots s = some r') : Restores r r' i := by
  have follows := keeps.follows
  have length := follows.length
  have valid := r.pushed.valid
  have position := follows.position
  cases s with
  | edit => cases aim
  | undo steps =>
    cases aim
    obtain ⟨⟨undone, history, sceneGraph⟩, moved, rfl⟩ := Option.map_eq_some_iff.mp h
    obtain ⟨out, moved, same⟩ := Option.map_eq_some_iff.mp moved
    cases same
    rw [History.undoLoop_target] at moved
    obtain ⟨history', written⟩ := History.moveTo_eq_some moved
    have inside : r.history.position - steps.toNat < r.pushed.states.length := by omega
    refine ⟨history', ⟨inside, ?_⟩, written⟩
    simp only [Timeline.back, position]
  | redo steps =>
    cases aim
    obtain ⟨⟨redone, history, sceneGraph⟩, moved, rfl⟩ := Option.map_eq_some_iff.mp h
    obtain ⟨out, moved, same⟩ := Option.map_eq_some_iff.mp moved
    cases same
    rw [History.redoLoop_target _ (by omega)] at moved
    obtain ⟨history', written⟩ := History.moveTo_eq_some moved
    have inside : min (r.history.position + steps.toNat) (r.history.snapshots.length - 1) <
        r.pushed.states.length := by omega
    refine ⟨history', ⟨inside, ?_⟩, written⟩
    simp only [Timeline.forward, position, length]
  | gotoIndex index =>
    cases aim
    obtain ⟨inside, h⟩ := Option.dite_none_right_eq_some.mp h
    obtain ⟨out, moved, rfl⟩ := Option.map_eq_some_iff.mp h
    obtain ⟨-, moved⟩ := Option.ite_none_left_eq_some.mp moved
    obtain ⟨snapshot, found, rfl⟩ := Option.map_eq_some_iff.mp moved
    exact ⟨rfl, ⟨inside, rfl⟩, .inr ⟨snapshot, found, rfl⟩⟩

theorem Keeps.step (keeps : Keeps maxSnapshots r) {s : HistoryStep π ρ}
    (edits : r.ChangedPages s) (h : r.step maxSnapshots s = some r') : Keeps maxSnapshots r' := by
  cases aim : r.target s with
  | none =>
    cases s with
    | edit sceneGraph action affectedPages =>
      cases h
      exact ⟨keeps.follows.pushState maxSnapshots sceneGraph action
        fun pageNum mem => ((edits pageNum).mp mem).1, Timeline.length_push_le keeps.bounded⟩
    | undo | redo | gotoIndex => cases aim
  | some i =>
    obtain ⟨history, ⟨inside, pushed⟩, -⟩ := keeps.restores aim h
    refine ⟨?_, ?_⟩
    · rw [history, pushed]
      exact keeps.follows.moveTo inside
    · rw [pushed]
      exact keeps.bounded

/-- A restore is exact just when it is sound. -/
theorem Restores.exact_iff {i : Nat} (keeps : Keeps maxSnapshots r) (exact_ : r.Exact)
    (restores : Restores r r' i) :
    r'.Exact ↔ ∀ snapshot ∈ r.history.snapshots[i]?, ∀ was ∈ r.pushed.states[i]?,
      snapshot.Covers r.sceneGraph was := by
  obtain ⟨history, ⟨inside, pushed⟩, written⟩ := restores
  obtain ⟨was, state⟩ : ∃ was, r.pushed.states[i]? = some was :=
    ⟨_, List.getElem?_eq_getElem inside⟩
  have exact' : r'.Exact ↔ r'.sceneGraph = was := by
    rw [Exact, history, pushed]
    change r.pushed.states[i]? = some r'.sceneGraph ↔ _
    rw [state, Option.some.injEq, eq_comm]
  rw [exact', state]
  obtain ⟨rfl, same⟩ | ⟨snapshot, found, restored⟩ := written
  · have current : was = r.sceneGraph := Option.some.inj (state.symm.trans exact_)
    refine iff_of_true (same.trans current.symm) fun snapshot _ other mem => ?_
    cases mem
    rw [current]
    exact ⟨rfl, rfl, fun _ _ _ => rfl⟩
  · rw [restored, found, restoreSnapshot_eq_iff (keeps.follows.holds found state)]
    simp

theorem Keeps.exact_iff (keeps : Keeps maxSnapshots r) (exact_ : r.Exact) {s : HistoryStep π ρ}
    (edits : r.ChangedPages s) (h : r.step maxSnapshots s = some r') :
    r'.Exact ↔ r.SoundRestore s := by
  cases aim : r.target s with
  | none =>
    cases s with
    | edit sceneGraph action affectedPages =>
      have kept := keeps.step edits h
      cases h
      refine iff_of_true ?_ fun i mem => ?_
      · rw [Exact, kept.follows.position, Timeline.getElem?_position, Timeline.current_push]
      · cases mem
    | undo | redo | gotoIndex => cases aim
  | some i =>
    rw [(keeps.restores aim h).exact_iff keeps exact_, SoundRestore, aim]
    simp

theorem keeps_start (sceneGraph : SceneGraph π ρ) : Keeps maxSnapshots (start sceneGraph) :=
  ⟨.initDocument sceneGraph, le_max_left _ _⟩

/-- There is always something to restore. -/
theorem Keeps.step_isSome (keeps : Keeps maxSnapshots r) {s : HistoryStep π ρ}
    (inside : ∀ index, s = .gotoIndex index →
      0 ≤ index ∧ index < r.history.snapshots.length) :
    (r.step maxSnapshots s).isSome = true := by
  have length := keeps.follows.length
  have valid := r.pushed.valid
  have position := keeps.follows.position
  have restored : ∀ {i : Nat} (now : SceneGraph π ρ), i < r.history.snapshots.length →
      (r.history.restoreAt i now).isSome = true := by
    intro i now inside
    rw [History.restoreAt, List.getElem?_eq_getElem inside]
    rfl
  have moved : ∀ {i : Nat} (now : SceneGraph π ρ), i < r.history.snapshots.length →
      (r.history.moveTo i now).isSome = true := by
    intro i now inside
    rw [History.moveTo]
    split
    · rfl
    · exact restored now inside
  cases s with
  | edit => rfl
  | undo steps =>
    simp only [HistoryRun.step, History.undo, Option.isSome_map, History.undoLoop_target]
    exact moved _ (by omega)
  | redo steps =>
    simp only [HistoryRun.step, History.redo, Option.isSome_map]
    rw [History.redoLoop_target _ (by omega)]
    exact moved _ (by omega)
  | gotoIndex index =>
    obtain ⟨nonneg, below⟩ := inside index rfl
    have here : index.toNat < r.pushed.states.length := by omega
    rw [HistoryRun.step, dif_pos here, History.gotoIndex, if_neg (by omega), Option.isSome_map]
    exact restored _ (by omega)

/-- To redo as many steps as were undone leads back. -/
theorem Keeps.undo_redo (keeps : Keeps maxSnapshots r) (exact_ : r.Exact) {steps : Int}
    {r₁ r₂ : HistoryRun π ρ}
    (enough : steps.toNat ≤ r.history.position ∨
      r.history.position + 1 = r.history.snapshots.length)
    (undone : r.step maxSnapshots (.undo steps) = some r₁) (sound : r.SoundRestore (.undo steps))
    (redone : r₁.step maxSnapshots (.redo steps) = some r₂)
    (sound' : r₁.SoundRestore (.redo steps)) :
    r₂.sceneGraph = r.sceneGraph ∧ r₂.history = r.history := by
  have keeps₁ := keeps.step (s := .undo steps) trivial undone
  have keeps₂ := keeps₁.step (s := .redo steps) trivial redone
  have exact₁ := (keeps.exact_iff exact_ (s := .undo steps) trivial undone).mpr sound
  have exact₂ := (keeps₁.exact_iff exact₁ (s := .redo steps) trivial redone).mpr sound'
  have pushed : r₂.pushed = r.pushed := by
    have back : r₁.pushed = r.pushed.back steps.toNat := by
      obtain ⟨_, _, rfl⟩ := Option.map_eq_some_iff.mp undone
      rfl
    have forward : r₂.pushed = r₁.pushed.forward steps.toNat := by
      obtain ⟨_, _, rfl⟩ := Option.map_eq_some_iff.mp redone
      rfl
    rw [keeps.follows.position, keeps.follows.length] at enough
    rw [forward, back, Timeline.back_forward enough]
  have position : r₂.history.position = r.history.position := by
    rw [keeps₂.follows.position, keeps.follows.position, pushed]
  refine ⟨?_, ?_⟩
  · rw [Exact, pushed, position, exact_] at exact₂
    exact (Option.some.inj exact₂).symm
  · have first := (keeps.restores (s := .undo steps) rfl undone).history
    have second := (keeps₁.restores (s := .redo steps) rfl redone).history
    rw [first] at second
    rw [second] at position ⊢
    exact congrArg (History.mk r.history.snapshots) position

/-- After an undo an edit discards exactly the undone states. -/
theorem Keeps.edit_discards (keeps : Keeps maxSnapshots r)
    (undone : r.history.position + 1 < r.history.snapshots.length)
    (sceneGraph : SceneGraph π ρ) (action : String) (affectedPages : List Nat) :
    r.history.pushState maxSnapshots sceneGraph action affectedPages =
      ⟨r.history.snapshots.take (r.history.position + 1) ++
        [createSnapshot sceneGraph action affectedPages], r.history.position + 1⟩ := by
  have length := keeps.follows.length
  have bounded := keeps.bounded
  have extended : (r.history.snapshots.take (r.history.position + 1) ++
      [createSnapshot sceneGraph action affectedPages]).length = r.history.position + 2 := by
    rw [List.length_append, List.length_take, List.length_singleton]
    omega
  simp only [History.pushState, extended]
  rw [if_neg (by omega)]
  rfl

end HistoryRun

/-- **Undo, redo and jumps restore exact states** as long as only pages have changed since that the
snapshot to be restored holds, and only as long. -/
theorem restored_exactly {maxSnapshots : Int} {sceneGraph : SceneGraph π ρ} {r : HistoryRun π ρ}
    (run : Reaches (HistoryRun.step maxSnapshots) (fun r s => r.ChangedPages s ∧ r.SoundRestore s)
      (.start sceneGraph) r) :
    r.Exact ∧
    (∀ s, r.ChangedPages s →
      (∀ index, s = .gotoIndex index → 0 ≤ index ∧ index < r.history.snapshots.length) →
      ∃ r', r.step maxSnapshots s = some r' ∧ (r'.Exact ↔ r.SoundRestore s)) ∧
    (∀ steps r₁ r₂, steps.toNat ≤ r.history.position ∨
        r.history.position + 1 = r.history.snapshots.length →
      r.step maxSnapshots (.undo steps) = some r₁ → r.SoundRestore (.undo steps) →
      r₁.step maxSnapshots (.redo steps) = some r₂ → r₁.SoundRestore (.redo steps) →
      r₂.sceneGraph = r.sceneGraph ∧ r₂.history = r.history) ∧
    (r.history.position + 1 < r.history.snapshots.length →
      ∀ (next : SceneGraph π ρ) action affectedPages,
        r.history.pushState maxSnapshots next action affectedPages =
          ⟨r.history.snapshots.take (r.history.position + 1) ++
            [createSnapshot next action affectedPages], r.history.position + 1⟩) := by
  obtain ⟨keeps, exact_⟩ : HistoryRun.Keeps maxSnapshots r ∧ r.Exact :=
    run.invariant (P := fun r => HistoryRun.Keeps maxSnapshots r ∧ r.Exact)
      (fun _ _ _ ⟨keeps, exact_⟩ ⟨edits, sound⟩ h =>
        ⟨keeps.step edits h, (keeps.exact_iff exact_ edits h).mpr sound⟩)
      ⟨HistoryRun.keeps_start sceneGraph, rfl⟩
  refine ⟨exact_, ?_, ?_, ?_⟩
  · intro s edits inside
    obtain ⟨r', h⟩ := Option.isSome_iff_exists.mp (keeps.step_isSome inside)
    exact ⟨r', h, keeps.exact_iff exact_ edits h⟩
  · intro steps r₁ r₂ enough undone sound redone sound'
    exact keeps.undo_redo exact_ enough undone sound redone sound'
  · intro undone next action affectedPages
    exact keeps.edit_discards undone next action affectedPages

section
variable [DecidableEq π] [DecidableEq ρ]

instance (snapshot : DocumentSnapshot π) (now was : SceneGraph π ρ) :
    Decidable (snapshot.Covers now was) :=
  decidable_of_iff
    (now.rest = was.rest ∧ now.pages.length = was.pages.length ∧
      ∀ i < now.pages.length, i + 1 ∉ snapshot.pagesData.map Prod.fst →
        now.pages[i]? = was.pages[i]?) (by
    constructor
    · rintro ⟨rest, count, others⟩
      refine ⟨rest, count, fun pageNum number absent => ?_⟩
      by_cases inside : pageNum - 1 < now.pages.length
      · apply others _ inside
        rwa [Nat.sub_add_cancel number]
      · rw [List.getElem?_eq_none (Nat.le_of_not_lt inside),
          List.getElem?_eq_none (count ▸ Nat.le_of_not_lt inside)]
    · intro covers
      exact ⟨covers.rest, covers.count,
        fun i _ absent => covers.others (i + 1) (Nat.le_add_left 1 i) absent⟩)

instance (r : HistoryRun π ρ) (s : HistoryStep π ρ) : Decidable (r.SoundRestore s) :=
  inferInstanceAs (Decidable (∀ i ∈ r.target s, ∀ snapshot ∈ r.history.snapshots[i]?,
    ∀ was ∈ r.pushed.states[i]?, snapshot.Covers r.sceneGraph was))

instance (r : HistoryRun π ρ) : ∀ s, Decidable (r.ChangedPages s)
  | .edit sceneGraph _ affectedPages =>
    decidable_of_iff
      ((∀ pageNum ∈ affectedPages, 1 ≤ pageNum ∧
          r.sceneGraph.pages[pageNum - 1]? ≠ sceneGraph.pages[pageNum - 1]?) ∧
        ∀ i < max r.sceneGraph.pages.length sceneGraph.pages.length,
          r.sceneGraph.pages[i]? ≠ sceneGraph.pages[i]? → i + 1 ∈ affectedPages) (by
      constructor
      · rintro ⟨named, all⟩ pageNum
        refine ⟨named pageNum, fun ⟨number, changed⟩ => ?_⟩
        have back : pageNum - 1 + 1 = pageNum := Nat.sub_add_cancel number
        rw [← back]
        apply all _ _ changed
        by_contra outside
        apply changed
        rw [List.getElem?_eq_none (by omega), List.getElem?_eq_none (by omega)]
      · intro names
        exact ⟨fun pageNum mem => (names pageNum).mp mem,
          fun i _ changed => (names (i + 1)).mpr ⟨Nat.le_add_left 1 i, changed⟩⟩)
  | .undo _ | .redo _ | .gotoIndex _ => .isTrue trivial

instance (r : HistoryRun π ρ) : Decidable r.Exact :=
  inferInstanceAs (Decidable (r.pushed.states[r.history.position]? = some r.sceneGraph))

end

end

/-- The first of two pages is changed twice; the last change is undone, redone and undone again. -/
theorem restored_exactly_one_page : ∃ r : HistoryRun String Unit, r.Exact ∧
    r.sceneGraph = ⟨["a1", "b"], ()⟩ := by
  obtain ⟨r, run, same⟩ := exists_reaches_of_runAll (HistoryRun.step 100)
    (fun (r : HistoryRun String Unit) s => r.ChangedPages s ∧ r.SoundRestore s)
    (.start ⟨["a", "b"], ()⟩)
    [.edit ⟨["a1", "b"], ()⟩ "type" [1], .edit ⟨["a2", "b"], ()⟩ "type" [1], .undo 1, .redo 1,
      .undo 1]
    (fun r => r.sceneGraph = ⟨["a1", "b"], ()⟩) (by decide)
  exact ⟨r, (restored_exactly run).1, same⟩

/-- One page is changed, then the other; to undo the last change leaves it as it is. -/
theorem undo_leaves_other_page : ∃ r : HistoryRun String Unit,
    Reaches (HistoryRun.step 100) (fun r s => r.ChangedPages s) (.start ⟨["a", "b"], ()⟩) r ∧
    r.history.position = 1 ∧ r.pushed.states[1]? = some ⟨["a1", "b"], ()⟩ ∧
    r.sceneGraph = ⟨["a1", "b1"], ()⟩ ∧ ¬r.Exact :=
  exists_reaches_of_runAll (HistoryRun.step 100) (fun r s => r.ChangedPages s)
    (.start ⟨["a", "b"], ()⟩)
    [.edit ⟨["a1", "b"], ()⟩ "type" [1], .edit ⟨["a1", "b1"], ()⟩ "type" [2], .undo 1]
    (fun r => r.history.position = 1 ∧ r.pushed.states[1]? = some ⟨["a1", "b"], ()⟩ ∧
      r.sceneGraph = ⟨["a1", "b1"], ()⟩ ∧ ¬r.Exact) (by decide)

end GigaPdf
