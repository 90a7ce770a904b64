import GigaPdf.Editor.LineEdits
import GigaPdf.Lib.Positions
import Mathlib.Algebra.Group.Prod
import Mathlib.Tactic.Linarith

/-!
# Follow-up commits of a paragraph session

The refresh after a commit re-anchors the origin of the session and the texts of its lines, but
leaves the bounds of the runs where they were at the start. What a follow-up commit writes is placed
from there, without the displacement that the first commit had already written.
-/

namespace GigaPdf.ParagraphSession

/-! ## One line -/

section
variable {tb : SessionTextbox} {d : ℚ × ℚ} {runs : List SessionLineRunSnapshot}
  {oldText newText : List CodeUnit}

/-- The commit writes the run: the box moved, or the edit of the line is mapped to the run or to
none. -/
def Writes (d : ℚ × ℚ) (runs : List SessionLineRunSnapshot) (oldText newText : List CodeUnit)
    (j : Nat) : Prop :=
  Moved d ∨ newText ≠ oldText ∧
    ∀ target ∈ mapLineEditToSingleRun runs oldText newText, j = target.1

instance (j : Nat) : Decidable (Writes d runs oldText newText j) := by
  unfold Writes
  infer_instance

/-- A run that the commit does not write keeps its content. -/
theorem editedLine_of_not_writes {j : Nat} (skipped : ¬Writes d runs oldText newText j) :
    (editedLine runs oldText newText)[j]? = runs[j]? := by
  rw [Writes, not_or, not_and, not_forall] at skipped
  by_cases edited : newText = oldText
  · rw [edited, editedLine_same]
  · obtain ⟨target, other⟩ := skipped.2 edited
    obtain ⟨mapped, other⟩ := Classical.not_imp.mp other
    rw [editedLine_mapped edited mapped, modify_content_getElem?]
    simp only [if_neg other, Option.map_id']

theorem lineElements_still (kept : ¬Moved d) (text : Option (List CodeUnit)) :
    lineElements tb d runs text text = [] := by
  unfold lineElements
  exact if_pos (.inr ⟨rfl, kept⟩)

theorem lineElements_moved (moved : Moved d) (text : List CodeUnit) :
    lineElements tb d runs (some text) (some text) =
      runs.map fun run => sessionRunToElement tb run run.content d.1 d.2 := by
  cases runs with
  | nil => rfl
  | cons run rest =>
    rw [lineElements, if_neg (by simp [moved]), if_pos rfl]

theorem lineElements_mapped (edited : newText ≠ oldText) {runIndex : Nat} {content : List CodeUnit}
    (mapped : mapLineEditToSingleRun runs oldText newText = some (runIndex, content)) :
    lineElements tb d runs (some oldText) (some newText) =
      runs.zipIdx.filterMap fun (run, j) =>
        if j = runIndex then some (sessionRunToElement tb run content d.1 d.2)
        else if Moved d then some (sessionRunToElement tb run run.content d.1 d.2)
        else none := by
  cases runs with
  | nil => rfl
  | cons run rest =>
    rw [lineElements, if_neg (by simp [edited]), if_neg (by simpa using edited)]
    simp only [Option.getD_some, mapped]

theorem lineElements_coarse (edited : newText ≠ oldText) {run : SessionLineRunSnapshot}
    {rest : List SessionLineRunSnapshot}
    (spans : mapLineEditToSingleRun (run :: rest) oldText newText = none) :
    lineElements tb d (run :: rest) (some oldText) (some newText) =
      sessionRunToElement tb run newText d.1 d.2 ::
        rest.map fun run => sessionRunToElement tb run [] d.1 d.2 := by
  rw [lineElements, if_neg (by simp [edited]), if_neg (by simpa using edited)]
  simp only [Option.getD_some, spans]

/-- The elements of a line are its written runs, with the contents of the edit. -/
theorem mem_lineElements {el : TextElement} :
    el ∈ lineElements tb d runs (some oldText) (some newText) ↔
      ∃ j run run', runs[j]? = some run ∧ Writes d runs oldText newText j ∧
        (editedLine runs oldText newText)[j]? = some run' ∧
        el = sessionRunToElement tb run run'.content d.1 d.2 := by
  by_cases edited : newText = oldText
  · subst edited
    rw [editedLine_same]
    by_cases moved : Moved d
    · rw [lineElements_moved moved, List.mem_map]
      constructor
      · rintro ⟨run, mem, rfl⟩
        obtain ⟨j, here⟩ := List.mem_iff_getElem?.mp mem
        exact ⟨j, run, run, here, .inl moved, here, rfl⟩
      · rintro ⟨j, run, run', here, _, here', rfl⟩
        rw [here] at here'
        cases here'
        exact ⟨run, List.mem_of_getElem? here, rfl⟩
    · rw [lineElements_still moved]
      simp [Writes, moved]
  · cases mapped : mapLineEditToSingleRun runs oldText newText with
    | some target =>
      rw [lineElements_mapped edited mapped, editedLine_mapped edited mapped, List.mem_filterMap]
      have writes (j : Nat) : Writes d runs oldText newText j ↔ Moved d ∨ j = target.1 := by
        simp [Writes, edited, mapped]
      simp only [writes, modify_content_getElem?, Prod.exists, List.mem_zipIdx_iff_getElem?]
      constructor
      · rintro ⟨run, j, here, written⟩
        split_ifs at written with hit moved
        · cases written
          refine ⟨j, run, { run with content := target.2 }, here, .inr hit, ?_, rfl⟩
          rw [here, Option.map_some, if_pos hit]
        · cases written
          refine ⟨j, run, run, here, .inl moved, ?_, rfl⟩
          rw [here, Option.map_some, if_neg hit]
      · rintro ⟨j, run, run', here, written, here', rfl⟩
        refine ⟨run, j, here, ?_⟩
        by_cases hit : j = target.1
        · rw [here, Option.map_some, if_pos hit] at here'
          cases here'
          rw [if_pos hit]
        · rw [here, Option.map_some, if_neg hit] at here'
          cases here'
          rw [if_neg hit, if_pos (written.resolve_right hit)]
    | none =>
      have writes (j : Nat) : Writes d runs oldText newText j := by
        simp [Writes, edited, mapped]
      cases runs with
      | nil => simp [lineElements]
      | cons run rest =>
        rw [lineElements_coarse edited mapped, editedLine_coarse edited mapped, List.mem_cons,
          List.mem_map]
        constructor
        · rintro (rfl | ⟨later, mem, rfl⟩)
          · exact ⟨0, run, { run with content := newText }, rfl, writes 0, rfl, rfl⟩
          · obtain ⟨j, here⟩ := List.mem_iff_getElem?.mp mem
            exact ⟨j + 1, later, { later with content := [] }, here, writes _, by simp [here], rfl⟩
        · rintro ⟨j, run₁, run', here, _, here', rfl⟩
          cases j with
          | zero =>
            cases here
            cases here'
            exact .inl rfl
          | succ j =>
            rw [List.getElem?_cons_succ] at here
            rw [List.getElem?_cons_succ, List.getElem?_map, here] at here'
            cases here'
            exact .inr ⟨run₁, List.mem_of_getElem? here, rfl⟩

end

/-! ## The text of a line -/

/-- The two edits leave the text that the single edit does. -/
def TextComposes (runs : List SessionLineRunSnapshot) (firstText lastText : List CodeUnit) : Prop :=
  let original := joinLineRunContents runs
  let edited := editedLine runs original firstText
  firstText = lastText ∨
    (KeepsText runs original lastText ∧ KeepsText edited firstText lastText) ∨
    (¬KeepsText runs original lastText ∧ ¬KeepsText edited firstText lastText ∧
      joinLineRunContents (editedLine edited firstText lastText) =
        joinLineRunContents (editedLine runs original lastText))

theorem textComposes_iff (runs : List SessionLineRunSnapshot) (firstText lastText : List CodeUnit) :
    TextComposes runs firstText lastText ↔
      joinLineRunContents
          (editedLine (editedLine runs (joinLineRunContents runs) firstText) firstText lastText) =
        joinLineRunContents (editedLine runs (joinLineRunContents runs) lastText) := by
  rw [TextComposes]
  by_cases same : firstText = lastText
  · subst same
    simp [editedLine_same]
  · cases runs with
    | nil =>
      have empty (oldText newText : List CodeUnit) : editedLine [] oldText newText = [] := by
        by_cases edited : newText = oldText <;>
          simp [editedLine, refreshLine, edited, mapLineEdit_nil]
      simp [empty, KeepsText, mapLineEdit_nil]
    | cons run rest =>
      have nonempty :
          editedLine (run :: rest) (joinLineRunContents (run :: rest)) firstText ≠ [] := by
        intro empty
        obtain ⟨content, first⟩ := editedLine_getElem? (run :: rest)
          (joinLineRunContents (run :: rest)) firstText 0
        rw [empty] at first
        cases first
      have keepsSingle := join_editedLine_iff (List.cons_ne_nil run rest)
        (joinLineRunContents (run :: rest)) lastText fun _ => rfl
      have keepsSecond := join_editedLine_iff nonempty firstText lastText
        fun edited => absurd edited.symm same
      rw [← keepsSingle, ← keepsSecond]
      grind

/-! ## Elements applied by id -/

def translate (b : Bounds) (d : ℚ × ℚ) : Bounds := { b with x := b.x + d.1, y := b.y + d.2 }

theorem translate_zero (b : Bounds) : translate b 0 = b := by
  simp [translate]

theorem translate_inj {b : Bounds} {d d' : ℚ × ℚ} : translate b d = translate b d' ↔ d = d' := by
  simp [translate, Prod.ext_iff]

/-- An element overwrites the content and the bounds of the run of its id. -/
def overwrite (run : SessionLineRunSnapshot) (el : TextElement) : SessionLineRunSnapshot :=
  if el.elementId = run.elementId then { run with bounds := el.bounds, content := el.content }
  else run

def applyElements (elements : List TextElement) (run : SessionLineRunSnapshot) :
    SessionLineRunSnapshot :=
  elements.foldl overwrite run

theorem applyElements_append (first second : List TextElement) (run : SessionLineRunSnapshot) :
    applyElements (first ++ second) run = applyElements second (applyElements first run) :=
  List.foldl_append

theorem applyElements_of_unnamed {elements : List TextElement} {run : SessionLineRunSnapshot}
    (unnamed : ∀ el ∈ elements, el.elementId ≠ run.elementId) :
    applyElements elements run = run := by
  induction elements with
  | nil => rfl
  | cons el elements ih =>
    rw [List.forall_mem_cons] at unnamed
    rw [applyElements, List.foldl_cons, overwrite, if_neg unnamed.1]
    exact ih unnamed.2

/-- Where all elements of a run agree, the run is as one of them says. -/
theorem applyElements_of_agree {elements : List TextElement} {written : TextElement}
    (mem : written ∈ elements) {run : SessionLineRunSnapshot}
    (named : written.elementId = run.elementId)
    (agree : ∀ el ∈ elements, el.elementId = run.elementId → el = written) :
    applyElements elements run =
      { run with bounds := written.bounds, content := written.content } := by
  induction elements generalizing run with
  | nil => cases mem
  | cons el elements ih =>
    rw [List.forall_mem_cons] at agree
    rw [applyElements, List.foldl_cons, overwrite]
    by_cases here : el.elementId = run.elementId
    · obtain rfl := agree.1 here
      rw [if_pos here]
      by_cases again : el ∈ elements
      · exact ih again named agree.2
      · apply applyElements_of_unnamed
        intro other mem' named'
        exact again (agree.2 other mem' named' ▸ mem')
    · rw [if_neg here]
      refine ih ((List.mem_cons.mp mem).resolve_left ?_) named agree.2
      rintro rfl
      exact here named

/-! ## The commit of a box -/

section
variable {numberText : ℚ → String} {generateId : Nat → Nat → String} {tb : SessionTextbox}
  {lines : List (List SessionLineRunSnapshot)}

def ParagraphSessionCommit.elements : ParagraphSessionCommit → List TextElement
  | .update elements => elements
  | _ => []

theorem commit_elements (session : tb.data.lineRuns = some lines) (keeps : NoReflow tb lines) :
    (commitParagraphSession numberText generateId tb).elements = updateElements tb lines := by
  rw [commitParagraphSession, session]
  cases lines with
  | nil => rfl
  | cons runs rest =>
    by_cases still : logicalLines tb = baselineTexts tb (runs :: rest) ∧ ¬Moved (moveDelta tb)
    · simp only [if_pos still, ParagraphSessionCommit.elements]
      apply Eq.symm
      rw [updateElements, List.flatMap_eq_nil_iff]
      intro entry _
      rw [still.1]
      exact lineElements_still still.2 _
    · simp only [if_neg still, if_pos keeps, ParagraphSessionCommit.elements]

theorem mem_updateElements {el : TextElement} :
    el ∈ updateElements tb lines ↔ ∃ runs, ∃ i : Nat, lines[i]? = some runs ∧
      el ∈ lineElements tb (moveDelta tb) runs (baselineTexts tb lines)[i]?
        (logicalLines tb)[i]? := by
  simp only [updateElements, List.mem_flatMap, Prod.exists, List.mem_zipIdx_iff_getElem?]

variable (tb) in
/-- A commit acts on a run through the line that the run is in. -/
theorem applyElements_update (distinct : (removedElementIds lines).Nodup)
    (baseline : (baselineTexts tb lines).length = lines.length)
    (logical : (logicalLines tb).length = lines.length) {i j : Nat}
    {runs : List SessionLineRunSnapshot} {run run' : SessionLineRunSnapshot}
    {oldText newText : List CodeUnit} (hi : lines[i]? = some runs) (hj : runs[j]? = some run)
    (old : (baselineTexts tb lines)[i]? = some oldText)
    (new : (logicalLines tb)[i]? = some newText)
    (edited : (editedLine runs oldText newText)[j]? = some run')
    (target : SessionLineRunSnapshot) (named : target.elementId = run.elementId) :
    (Writes (moveDelta tb) runs oldText newText j →
      applyElements (updateElements tb lines) target =
        { target with bounds := translate run.bounds (moveDelta tb), content := run'.content }) ∧
    (¬Writes (moveDelta tb) runs oldText newText j →
      applyElements (updateElements tb lines) target = target) := by
  have from_here : ∀ el ∈ updateElements tb lines, el.elementId = run.elementId →
      Writes (moveDelta tb) runs oldText newText j ∧
        el = sessionRunToElement tb run run'.content (moveDelta tb).1 (moveDelta tb).2 := by
    intro el mem names
    obtain ⟨line₁, i₁, hi₁, mem⟩ := mem_updateElements.mp mem
    have bound := (List.getElem?_eq_some_iff.mp hi₁).1
    rw [List.getElem?_eq_getElem (baseline ▸ bound), List.getElem?_eq_getElem (logical ▸ bound),
      mem_lineElements] at mem
    obtain ⟨j₁, run₁, run₁', hj₁, writes, edited₁, rfl⟩ := mem
    obtain ⟨rfl, rfl⟩ := Positions.eq_of_flatten_nodup distinct hi₁ hj₁ hi hj names
    cases hi.symm.trans hi₁
    cases hj.symm.trans hj₁
    rw [List.getElem?_eq_getElem (baseline ▸ bound), Option.some.injEq] at old
    rw [List.getElem?_eq_getElem (logical ▸ bound), Option.some.injEq] at new
    rw [old, new] at writes edited₁
    cases edited.symm.trans edited₁
    exact ⟨writes, rfl⟩
  constructor
  · intro writes
    have mem : sessionRunToElement tb run run'.content (moveDelta tb).1 (moveDelta tb).2 ∈
        updateElements tb lines := by
      refine mem_updateElements.mpr ⟨runs, i, hi, ?_⟩
      rw [old, new, mem_lineElements]
      exact ⟨j, run, run', hj, writes, edited, rfl⟩
    exact applyElements_of_agree mem named.symm fun el mem names =>
      (from_here el mem (names.trans named)).2
  · intro skipped
    apply applyElements_of_unnamed
    intro el mem names
    exact skipped (from_here el mem (names.trans named)).1

end

/-- The lines as the refresh leaves them. -/
def refreshedLines (lines : List (List SessionLineRunSnapshot)) (old new : List (List CodeUnit)) :
    List (List SessionLineRunSnapshot) :=
  lines.zipIdx.map fun (runs, i) => refreshLine runs old[i]? new[i]?

section
variable (lines : List (List SessionLineRunSnapshot)) (old new : List (List CodeUnit))

theorem refreshedLines_getElem? (i : Nat) : (refreshedLines lines old new)[i]? =
    lines[i]?.map fun runs => refreshLine runs old[i]? new[i]? := by
  rw [refreshedLines, List.getElem?_map, List.getElem?_zipIdx, Option.map_map, Nat.zero_add]
  rfl

theorem refreshLine_same (runs : List SessionLineRunSnapshot) (text : Option (List CodeUnit)) :
    refreshLine runs text text = runs := by
  cases text with
  | none => rfl
  | some text => exact editedLine_same runs text

theorem refreshedLines_same : refreshedLines lines old old = lines := by
  apply List.ext_getElem?
  intro i
  rw [refreshedLines_getElem?]
  simp only [refreshLine_same, Option.map_id']

theorem length_refreshedLines : (refreshedLines lines old new).length = lines.length := by
  rw [refreshedLines, List.length_map, List.length_zipIdx]

variable {lines old new}

theorem refreshedLines_ids (before : old.length = lines.length)
    (after : new.length = lines.length) :
    removedElementIds (refreshedLines lines old new) = removedElementIds lines := by
  rw [removedElementIds, removedElementIds, List.map_flatten, List.map_flatten]
  congr 1
  apply List.ext_getElem?
  intro i
  rw [List.getElem?_map, List.getElem?_map, refreshedLines_getElem?]
  cases hi : lines[i]? with
  | none => rfl
  | some runs =>
    have bound := (List.getElem?_eq_some_iff.mp hi).1
    rw [List.getElem?_eq_getElem (before ▸ bound), List.getElem?_eq_getElem (after ▸ bound),
      Option.map_some, Option.map_some, Option.map_some]
    exact congrArg some (editedLine_ids runs _ _)

end

/-! ## Two states of a session -/

/-- A session as it begins: the texts of the lines are those of the runs. -/
structure EditSession where
  box : SessionTextbox
  lines : List (List SessionLineRunSnapshot)
  origin : ℚ × ℚ
  distinct : (removedElementIds lines).Nodup

def EditSession.data (session : EditSession) : SessionData :=
  { session.box.data with
    lineRuns := some session.lines
    sessionOrigin := some session.origin
    sessionLineTexts := some (session.lines.map joinLineRunContents) }

/-- A text and a place of the box that keep the number of lines and wrap none. -/
structure BoxState (session : EditSession) where
  text : List CodeUnit
  textLines : Option (List (List CodeUnit))
  place : ℚ × ℚ
  keepsLines : (text.splitOn newline).length = session.lines.length
  keepsFrame : ∀ lines ∈ textLines, lines ≠ [] → lines.length = session.lines.length

def BoxState.lines {session : EditSession} (state : BoxState session) : List (List CodeUnit) :=
  state.text.splitOn newline

def EditSession.boxWith (session : EditSession) (data : SessionData) (state : BoxState session) :
    SessionTextbox :=
  { session.box with
    text := some state.text
    textLines := state.textLines
    left := some state.place.1
    top := some state.place.2
    data := data }

section
variable {session : EditSession} {data : SessionData} (state : BoxState session)
  {lines : List (List SessionLineRunSnapshot)}

theorem BoxState.length_lines : state.lines.length = session.lines.length := state.keepsLines

@[simp] theorem logicalLines_boxWith :
    logicalLines (session.boxWith data state) = state.lines := rfl

theorem noReflow_boxWith (kept : lines.length = session.lines.length) :
    NoReflow (session.boxWith data state) lines := by
  rw [NoReflow, logicalLines_boxWith]
  refine ⟨state.length_lines.trans kept.symm, ?_⟩
  rw [visualLines, logicalLines_boxWith]
  split
  · rename_i wrapped
    rw [state.keepsFrame _ wrapped (List.cons_ne_nil _ _), state.length_lines]
  · rfl

theorem moveDelta_boxWith {place : ℚ × ℚ} (anchored : data.sessionOrigin = some place) :
    moveDelta (session.boxWith data state) = state.place - place := by
  simp only [moveDelta, origin, EditSession.boxWith, anchored, Option.getD_some]
  rfl

end

section
variable (numberText : ℚ → String) (generateId : Nat → Nat → String) {session : EditSession}

/-- The first commit. -/
def firstCommit (s₁ : BoxState session) : ParagraphSessionCommit :=
  commitParagraphSession numberText generateId (session.boxWith session.data s₁)

/-- The session after the first commit. -/
def refreshedData (s₁ : BoxState session) : SessionData :=
  refreshParagraphSessionAfterCommit (session.boxWith session.data s₁)
    (firstCommit numberText generateId s₁)

/-- The second commit. -/
def followUpCommit (s₁ s₂ : BoxState session) : ParagraphSessionCommit :=
  commitParagraphSession numberText generateId
    (session.boxWith (refreshedData numberText generateId s₁) s₂)

/-- What the two commits make of a run. -/
def afterBoth (s₁ s₂ : BoxState session) (run : SessionLineRunSnapshot) : SessionLineRunSnapshot :=
  applyElements ((firstCommit numberText generateId s₁).elements ++
    (followUpCommit numberText generateId s₁ s₂).elements) run

/-- What the single commit of the last state makes of a run. -/
def afterSingle (s₂ : BoxState session) (run : SessionLineRunSnapshot) : SessionLineRunSnapshot :=
  applyElements (firstCommit numberText generateId s₂).elements run

/-- The two commits do what the single one does, and a commit without a change does nothing. -/
structure CommitsCompose (s₁ s₂ : BoxState session) : Prop where
  positions : ∀ run ∈ session.lines.flatten,
    (afterBoth numberText generateId s₁ s₂ run).bounds =
      (afterSingle numberText generateId s₂ run).bounds
  displaced : Moved (s₂.place - session.origin) → ∀ run ∈ session.lines.flatten,
    (afterBoth numberText generateId s₁ s₂ run).bounds =
      translate run.bounds (s₂.place - session.origin)
  texts : ∀ runs ∈ session.lines,
    joinLineRunContents (runs.map (afterBoth numberText generateId s₁ s₂)) =
      joinLineRunContents (runs.map (afterSingle numberText generateId s₂))
  repeated : followUpCommit numberText generateId s₁ s₁ = .unchanged

/-- Displacements `d₁` and then `d₂` of what the first commit, the follow-up or the single commit
writes. The last commit to write leaves out no displacement. -/
structure DisplacementsAgree (d₁ d₂ : ℚ × ℚ) (first followUp single : Prop) : Prop where
  ofFollowUp : followUp → (single → d₁ = 0) ∧ (¬single → d₂ = 0)
  ofFirst : ¬followUp → first → (single → d₂ = 0) ∧ (¬single → d₁ = 0)
  ofNeither : ¬followUp → ¬first → single → d₁ + d₂ = 0

theorem displacementsAgree_iff {d₁ d₂ : ℚ × ℚ} {first followUp single : Prop} [Decidable first]
    [Decidable followUp] [Decidable single] :
    DisplacementsAgree d₁ d₂ first followUp single ↔
      (if followUp then d₂ else if first then d₁ else 0) = if single then d₁ + d₂ else 0 := by
  constructor
  · intro agree
    split_ifs with second whole one whole whole
    · rw [(agree.ofFollowUp second).1 whole, zero_add]
    · exact (agree.ofFollowUp second).2 whole
    · rw [(agree.ofFirst second one).1 whole, add_zero]
    · exact (agree.ofFirst second one).2 whole
    · exact (agree.ofNeither second one whole).symm
    · rfl
  · intro same
    constructor
    · intro second
      rw [if_pos second] at same
      constructor
      · intro whole
        rw [if_pos whole] at same
        exact right_eq_add.mp same
      · intro apart
        rwa [if_neg apart] at same
    · intro second one
      rw [if_neg second, if_pos one] at same
      constructor
      · intro whole
        rw [if_pos whole] at same
        exact left_eq_add.mp same
      · intro apart
        rwa [if_neg apart] at same
    · intro second one whole
      rw [if_neg second, if_neg one, if_pos whole] at same
      exact same.symm

/-- What is written of a run, and from where it is displaced. -/
def RunComposes (d₁ d₂ : ℚ × ℚ) (runs : List SessionLineRunSnapshot)
    (firstText lastText : List CodeUnit) (j : Nat) : Prop :=
  let original := joinLineRunContents runs
  DisplacementsAgree d₁ d₂ (Writes d₁ runs original firstText j)
    (Writes d₂ (editedLine runs original firstText) firstText lastText j)
    (Writes (d₁ + d₂) runs original lastText j)

/-- A second move drops the first displacement. -/
theorem runComposes_of_moved {d₁ d₂ : ℚ × ℚ} (moved : Moved d₂)
    (runs : List SessionLineRunSnapshot) (firstText lastText : List CodeUnit) (j : Nat) :
    RunComposes d₁ d₂ runs firstText lastText j ↔ d₁ = 0 := by
  have second (runs : List SessionLineRunSnapshot) (oldText newText : List CodeUnit) :
      Writes d₂ runs oldText newText j := .inl moved
  constructor
  · intro agree
    have written := agree.ofFollowUp (second _ _ _)
    by_contra displaced
    have single := mt written.1 displaced
    have still := written.2 single
    rw [still] at moved
    norm_num [Moved] at moved
  · rintro rfl
    rw [RunComposes, zero_add]
    constructor
    · intro _
      exact ⟨fun _ => rfl, fun apart => absurd (second _ _ _) apart⟩
    · intro apart
      exact absurd (second _ _ _) apart
    · intro apart
      exact absurd (second _ _ _) apart

/-- After a move, a small displacement or an edit of the run drops the move. -/
theorem runComposes_after_move {d₁ d₂ : ℚ × ℚ} (moved : Moved d₁) (kept : ¬Moved d₂)
    (runs : List SessionLineRunSnapshot) (firstText lastText : List CodeUnit) (j : Nat) :
    RunComposes d₁ d₂ runs firstText lastText j ↔
      d₂ = 0 ∧ ¬Writes d₂ (editedLine runs (joinLineRunContents runs) firstText) firstText
        lastText j := by
  have one (runs : List SessionLineRunSnapshot) (oldText newText : List CodeUnit) :
      Writes d₁ runs oldText newText j := .inl moved
  have displaced : d₁ ≠ 0 := by
    rintro rfl
    norm_num [Moved] at moved
  constructor
  · intro agree
    have still : d₂ = 0 := by
      by_contra shifted
      by_cases second : Writes d₂ (editedLine runs (joinLineRunContents runs) firstText) firstText
          lastText j
      · have written := agree.ofFollowUp second
        exact shifted (written.2 (mt written.1 displaced))
      · have written := agree.ofFirst second (one _ _ _)
        exact displaced (written.2 (mt written.1 shifted))
    refine ⟨still, fun second => displaced ((agree.ofFollowUp second).1 ?_)⟩
    rw [still, add_zero]
    exact one _ _ _
  · rintro ⟨rfl, apart⟩
    rw [RunComposes, add_zero]
    constructor
    · intro second
      exact absurd second apart
    · intro _ _
      exact ⟨fun _ => rfl, fun skipped => absurd (one _ _ _) skipped⟩
    · intro _ skipped
      exact absurd (one _ _ _) skipped

structure LineComposes (d₁ d₂ : ℚ × ℚ) (runs : List SessionLineRunSnapshot)
    (firstText lastText : List CodeUnit) : Prop where
  displacements : ∀ j < runs.length, RunComposes d₁ d₂ runs firstText lastText j
  text : TextComposes runs firstText lastText

end

section
variable {numberText : ℚ → String} {generateId : Nat → Nat → String} {session : EditSession}

theorem commit_unchanged {tb : SessionTextbox} {lines : List (List SessionLineRunSnapshot)}
    (stashed : tb.data.lineRuns = some lines)
    (unchanged : commitParagraphSession numberText generateId tb = .unchanged) :
    lines = [] ∨ logicalLines tb = baselineTexts tb lines := by
  rw [commitParagraphSession, stashed] at unchanged
  cases lines with
  | nil => exact .inl rfl
  | cons runs rest =>
    simp only at unchanged
    split_ifs at unchanged with same keeps
    exact .inr same.1

theorem refreshedData_lineRuns (s₁ : BoxState session) :
    (refreshedData numberText generateId s₁).lineRuns =
      some (refreshedLines session.lines (session.lines.map joinLineRunContents) s₁.lines) := by
  have keeps : NoReflow (session.boxWith session.data s₁) session.lines :=
    noReflow_boxWith s₁ rfl
  rw [refreshedData]
  cases commit : firstCommit numberText generateId s₁ with
  | unchanged =>
    have stashed : (session.boxWith session.data s₁).data.lineRuns = some session.lines := rfl
    rcases commit_unchanged stashed commit with none | same
    · rw [none]
      exact stashed.trans (congrArg some none)
    · have texts : s₁.lines = session.lines.map joinLineRunContents := same
      rw [texts, refreshedLines_same]
      exact stashed
  | update elements => rfl
  | reflow removed added =>
    rw [firstCommit, commitParagraphSession] at commit
    split at commit
    · cases commit
    · cases commit
    · rename_i stashed
      cases stashed
      rw [if_pos keeps] at commit
      split_ifs at commit

theorem followUp_repeated (s₁ : BoxState session) :
    followUpCommit numberText generateId s₁ s₁ = .unchanged := by
  have anchored : (refreshedData numberText generateId s₁).sessionOrigin = some s₁.place := rfl
  have still :
      ¬Moved (moveDelta (session.boxWith (refreshedData numberText generateId s₁) s₁)) := by
    rw [moveDelta_boxWith s₁ anchored, sub_self]
    norm_num [Moved]
  rw [followUpCommit, commitParagraphSession]
  split
  · rfl
  · rfl
  · exact if_pos ⟨rfl, still⟩

theorem firstCommit_elements (s₁ : BoxState session) :
    (firstCommit numberText generateId s₁).elements =
      updateElements (session.boxWith session.data s₁) session.lines :=
  commit_elements rfl (noReflow_boxWith s₁ rfl)

theorem followUpCommit_elements (s₁ s₂ : BoxState session) :
    (followUpCommit numberText generateId s₁ s₂).elements =
      updateElements (session.boxWith (refreshedData numberText generateId s₁) s₂)
        (refreshedLines session.lines (session.lines.map joinLineRunContents) s₁.lines) :=
  commit_elements (refreshedData_lineRuns s₁) (noReflow_boxWith s₂ (length_refreshedLines ..))

section
variable {s₁ s₂ : BoxState session} {i j : Nat} {runs : List SessionLineRunSnapshot}
  {firstText lastText : List CodeUnit} {run : SessionLineRunSnapshot}
  (hi : session.lines[i]? = some runs) (hj : runs[j]? = some run)

include hi hj

theorem afterFirst_run (first : s₁.lines[i]? = some firstText) {run₁ : SessionLineRunSnapshot}
    (edited : (editedLine runs (joinLineRunContents runs) firstText)[j]? = some run₁) :
    afterSingle numberText generateId s₁ run =
      { run with
        bounds := translate run.bounds
          (if Writes (s₁.place - session.origin) runs (joinLineRunContents runs) firstText j then
            s₁.place - session.origin else 0)
        content := run₁.content } := by
  have anchored : session.data.sessionOrigin = some session.origin := rfl
  have old : (session.lines.map joinLineRunContents)[i]? = some (joinLineRunContents runs) := by
    rw [List.getElem?_map, hi, Option.map_some]
  obtain ⟨written, skipped⟩ := applyElements_update (session.boxWith session.data s₁)
    session.distinct (List.length_map _) s₁.length_lines hi hj old first edited run rfl
  rw [moveDelta_boxWith s₁ anchored] at written skipped
  rw [afterSingle, firstCommit_elements]
  split
  · rename_i writes
    exact written writes
  · rename_i skips
    rw [skipped skips, translate_zero]
    rw [editedLine_of_not_writes skips, hj] at edited
    cases edited
    rfl

theorem afterBoth_run (first : s₁.lines[i]? = some firstText)
    (last : s₂.lines[i]? = some lastText) {run₂ : SessionLineRunSnapshot}
    (edited : (editedLine (editedLine runs (joinLineRunContents runs) firstText) firstText
      lastText)[j]? = some run₂) :
    afterBoth numberText generateId s₁ s₂ run =
      { run with
        bounds := translate run.bounds
          (if Writes (s₂.place - s₁.place) (editedLine runs (joinLineRunContents runs) firstText)
              firstText lastText j then s₂.place - s₁.place
            else if Writes (s₁.place - session.origin) runs (joinLineRunContents runs) firstText j
              then s₁.place - session.origin else 0)
        content := run₂.content } := by
  obtain ⟨content, entry⟩ := editedLine_at hj (joinLineRunContents runs) firstText
  have lines₁ := refreshedLines_getElem? session.lines
    (session.lines.map joinLineRunContents) s₁.lines i
  rw [hi, Option.map_some, List.getElem?_map, hi, first] at lines₁
  have anchored : (refreshedData numberText generateId s₁).sessionOrigin = some s₁.place := rfl
  have distinct : (removedElementIds (refreshedLines session.lines
      (session.lines.map joinLineRunContents) s₁.lines)).Nodup := by
    rw [refreshedLines_ids (List.length_map _) s₁.length_lines]
    exact session.distinct
  obtain ⟨written, skipped⟩ := applyElements_update
    (session.boxWith (refreshedData numberText generateId s₁) s₂) distinct
    (s₁.length_lines.trans (length_refreshedLines ..).symm)
    (s₂.length_lines.trans (length_refreshedLines ..).symm) lines₁ entry first last edited
    (afterSingle numberText generateId s₁ run) (by rw [afterFirst_run hi hj first entry])
  rw [moveDelta_boxWith s₂ anchored] at written skipped
  rw [afterBoth, applyElements_append, followUpCommit_elements]
  split
  · rename_i writes
    rw [← afterSingle, written writes, afterFirst_run hi hj first entry]
  · rename_i skips
    rw [← afterSingle, skipped skips, afterFirst_run hi hj first entry]
    rw [editedLine_of_not_writes skips, entry] at edited
    cases edited
    rfl

theorem positions_agree_iff (first : s₁.lines[i]? = some firstText)
    (last : s₂.lines[i]? = some lastText) :
    (afterBoth numberText generateId s₁ s₂ run).bounds =
        (afterSingle numberText generateId s₂ run).bounds ↔
      RunComposes (s₁.place - session.origin) (s₂.place - s₁.place) runs firstText lastText j := by
  obtain ⟨content, edited⟩ := editedLine_at hj (joinLineRunContents runs) firstText
  obtain ⟨content₂, edited₂⟩ := editedLine_at edited firstText lastText
  obtain ⟨content', edited'⟩ := editedLine_at hj (joinLineRunContents runs) lastText
  rw [afterBoth_run hi hj first last edited₂, afterFirst_run hi hj last edited', translate_inj,
    RunComposes, displacementsAgree_iff, sub_add_sub_cancel']

theorem afterFirst_of_moved (first : s₁.lines[i]? = some firstText)
    (moved : Moved (s₁.place - session.origin)) :
    (afterSingle numberText generateId s₁ run).bounds =
      translate run.bounds (s₁.place - session.origin) := by
  obtain ⟨content, edited⟩ := editedLine_at hj (joinLineRunContents runs) firstText
  rw [afterFirst_run hi hj first edited, if_pos (.inl moved)]

omit hj

theorem afterFirst_text (first : s₁.lines[i]? = some firstText) :
    joinLineRunContents (runs.map (afterSingle numberText generateId s₁)) =
      joinLineRunContents (editedLine runs (joinLineRunContents runs) firstText) := by
  rw [joinLineRunContents, joinLineRunContents, List.map_map]
  congr 1
  apply List.ext_getElem?
  intro j
  obtain ⟨content, edited⟩ := editedLine_getElem? runs (joinLineRunContents runs) firstText j
  cases hj : runs[j]? with
  | none => simp [hj, edited]
  | some run =>
    rw [hj, Option.map_some] at edited
    rw [List.getElem?_map, List.getElem?_map, hj, edited, Option.map_some, Option.map_some,
      Function.comp_apply, afterFirst_run hi hj first edited]

theorem afterBoth_text (first : s₁.lines[i]? = some firstText)
    (last : s₂.lines[i]? = some lastText) :
    joinLineRunContents (runs.map (afterBoth numberText generateId s₁ s₂)) =
      joinLineRunContents (editedLine (editedLine runs (joinLineRunContents runs) firstText)
        firstText lastText) := by
  nth_rewrite 1 2 [joinLineRunContents]
  rw [List.map_map]
  congr 1
  apply List.ext_getElem?
  intro j
  obtain ⟨content, edited⟩ := editedLine_getElem? runs (joinLineRunContents runs) firstText j
  obtain ⟨content₂, edited₂⟩ := editedLine_getElem?
    (editedLine runs (joinLineRunContents runs) firstText) firstText lastText j
  rw [edited, Option.map_map] at edited₂
  cases hj : runs[j]? with
  | none => simp [hj, edited₂]
  | some run =>
    rw [hj, Option.map_some] at edited₂
    rw [List.getElem?_map, List.getElem?_map, hj, edited₂, Option.map_some, Option.map_some,
      Function.comp_apply, afterBoth_run hi hj first last edited₂]

end

/-- Two commits compose exactly where the runs of every line are displaced alike, and every line
has the same text. -/
theorem commits_compose_iff (s₁ s₂ : BoxState session) :
    CommitsCompose numberText generateId s₁ s₂ ↔
      ∀ (i : Nat) runs firstText lastText, session.lines[i]? = some runs →
        s₁.lines[i]? = some firstText → s₂.lines[i]? = some lastText →
        LineComposes (s₁.place - session.origin) (s₂.place - s₁.place) runs firstText
          lastText := by
  constructor
  · intro compose i runs firstText lastText hi first last
    constructor
    · intro j bound
      have hj : runs[j]? = some runs[j] := List.getElem?_eq_getElem bound
      apply (positions_agree_iff hi hj first last).mp
      apply compose.positions
      exact List.mem_flatten.mpr ⟨runs, List.mem_of_getElem? hi, List.getElem_mem bound⟩
    · rw [textComposes_iff, ← afterBoth_text hi first last, ← afterFirst_text hi last]
      exact compose.texts runs (List.mem_of_getElem? hi)
  · intro lines
    have texts {i : Nat} {runs} (hi : session.lines[i]? = some runs) (s : BoxState session) :
        ∃ text, s.lines[i]? = some text := by
      have bound := (List.getElem?_eq_some_iff.mp hi).1
      exact ⟨_, List.getElem?_eq_getElem (s.length_lines ▸ bound)⟩
    have positions : ∀ run ∈ session.lines.flatten,
        (afterBoth numberText generateId s₁ s₂ run).bounds =
          (afterSingle numberText generateId s₂ run).bounds := by
      intro run mem
      obtain ⟨runs, lineMem, runMem⟩ := List.mem_flatten.mp mem
      obtain ⟨i, hi⟩ := List.mem_iff_getElem?.mp lineMem
      obtain ⟨j, hj⟩ := List.mem_iff_getElem?.mp runMem
      obtain ⟨firstText, first⟩ := texts hi s₁
      obtain ⟨lastText, last⟩ := texts hi s₂
      apply (positions_agree_iff hi hj first last).mpr
      exact (lines i runs _ _ hi first last).displacements j (List.getElem?_eq_some_iff.mp hj).1
    constructor
    · exact positions
    · intro moved run mem
      obtain ⟨runs, lineMem, runMem⟩ := List.mem_flatten.mp mem
      obtain ⟨i, hi⟩ := List.mem_iff_getElem?.mp lineMem
      obtain ⟨j, hj⟩ := List.mem_iff_getElem?.mp runMem
      obtain ⟨lastText, last⟩ := texts hi s₂
      rw [positions run mem, afterFirst_of_moved hi hj last moved]
    · intro runs mem
      obtain ⟨i, hi⟩ := List.mem_iff_getElem?.mp mem
      obtain ⟨firstText, first⟩ := texts hi s₁
      obtain ⟨lastText, last⟩ := texts hi s₂
      rw [afterBoth_text hi first last, afterFirst_text hi last]
      exact (textComposes_iff runs firstText lastText).mp (lines i runs _ _ hi first last).text
    · exact followUp_repeated s₁

end

/-! ## A box moved twice -/

def movedSession : EditSession where
  box := sessionBox "abc" [[helveticaRun "r" "abc" 0 0]]
  lines := [[helveticaRun "r" "abc" 0 0]]
  origin := (0, 0)
  distinct := by decide

def movedTo (x : ℚ) : BoxState movedSession where
  text := codeUnits "abc"
  textLines := none
  place := (x, 0)
  keepsLines := by decide
  keepsFrame := by simp

theorem moved_twice_loses_move :
    ¬CommitsCompose wholeNumberText numberedId (movedTo 10) (movedTo 30) := by
  intro compose
  have same := compose.positions (helveticaRun "r" "abc" 0 0) (by decide)
  exact absurd same (by decide +kernel)

end GigaPdf.ParagraphSession
