import GigaPdf.Editor.FollowUpCommits

/-!
# Surgical edits

An edit of a line that is mapped to a run replaces the characters of this run and no others. It is
mapped to none only if no run has all of the window, and then the elements of the line have the new
text in them.
-/

namespace GigaPdf.ParagraphSession

open Windows

/-! ## Ranges -/

theorem lineRunCharRanges_after {out : List CodeUnit} {runs : List SessionLineRunSnapshot}
    {range : Option (Nat × Nat)} (mem : range ∈ lineRunCharRanges out runs) {start stop : Nat}
    (here : range = some (start, stop)) : out.length ≤ start ∧ start ≤ stop := by
  induction runs generalizing out with
  | nil => cases mem
  | cons run rest ih =>
    rw [lineRunCharRanges] at mem
    split at mem
    · obtain first | later := List.mem_cons.mp mem
      · rw [first] at here
        cases here
      · exact ih later
    · obtain first | later := List.mem_cons.mp mem
      · rw [first, Option.some_inj, Prod.mk.injEq, List.length_append] at here
        omega
      · have := ih later
        simp only [List.length_append] at this
        omega

/-- The ranges follow each other. -/
theorem lineRunCharRanges_ordered (out : List CodeUnit) (runs : List SessionLineRunSnapshot) :
    (lineRunCharRanges out runs).Pairwise fun a b =>
      ∀ start stop, a = some (start, stop) → ∀ start' stop', b = some (start', stop') →
        stop ≤ start' := by
  induction runs generalizing out with
  | nil => exact .nil
  | cons run rest ih =>
    rw [lineRunCharRanges]
    split
    · refine .cons ?_ (ih out)
      intro b _ start stop here
      cases here
    · refine .cons ?_ (ih _)
      intro b later start stop here start' stop' there
      rw [Option.some_inj, Prod.mk.injEq] at here
      have := (lineRunCharRanges_after later there).1
      rw [List.length_append, here.2] at this
      exact this

theorem ranges_ordered {out : List CodeUnit} {runs : List SessionLineRunSnapshot} {j k : Nat}
    {start stop start' stop' : Nat} (here : (lineRunCharRanges out runs)[j]? = some (some (start, stop)))
    (there : (lineRunCharRanges out runs)[k]? = some (some (start', stop'))) (order : j < k) :
    stop ≤ start' := by
  obtain ⟨inside, here⟩ := List.getElem?_eq_some_iff.mp here
  obtain ⟨inside', there⟩ := List.getElem?_eq_some_iff.mp there
  exact List.pairwise_iff_getElem.mp (lineRunCharRanges_ordered out runs) j k inside inside' order
    start stop here start' stop' there

/-! ## An edit mapped to a run -/

/-- The slices of the other runs are the same, behind the edited run at their new places. -/
def SiblingsKept (ranges : List (Option (Nat × Nat))) (oldText newText : List CodeUnit) (k : Nat)
    (content : List CodeUnit) : Prop :=
  ∀ start stop : Nat, ranges[k]? = some (some (start, stop)) →
    ∀ j s e : Nat, ranges[j]? = some (some (s, e)) →
      (j < k → slice newText s e = slice oldText s e) ∧
      (k < j → slice newText (start + content.length + (s - stop))
        (start + content.length + (e - stop)) = slice oldText s e)

theorem mapLineEdit_replaced {runs : List SessionLineRunSnapshot} {newText : List CodeUnit} {k : Nat}
    {content : List CodeUnit}
    (mapped : mapLineEditToSingleRun runs (joinLineRunContents runs) newText = some (k, content)) :
    ∃ start stop, (lineRunCharRanges [] runs)[k]? = some (some (start, stop)) ∧
      stop ≤ (joinLineRunContents runs).length ∧
      newText = replaced (joinLineRunContents runs) start stop content := by
  obtain ⟨before, run, after, rfl, rfl, nonempty, rfl⟩ := mapLineEdit_eq_some mapped
  have range := lineRunCharRanges_at [] before run after
  have start : joinPieces [] (before.map SessionLineRunSnapshot.content) =
      joinLineRunContents before := rfl
  dsimp only at range
  rw [if_neg nonempty, ← gap_of_ne_nil nonempty, start] at range
  have whole : joinLineRunContents (before ++ run :: after) =
      (joinLineRunContents before ++ gap (joinLineRunContents before) run.content) ++
        (run.content ++ (gap run.content (joinLineRunContents after) ++
          joinLineRunContents after)) := by
    rw [join_split, joined_joined _ nonempty]
    simp only [List.append_assoc]
  refine ⟨_, _, range, ?_, ?_⟩
  · rw [whole]
    simp only [List.length_append]
    omega
  · rw [whole]
    exact (replaced_append content).symm

theorem siblings_kept {ranges : List (Option (Nat × Nat))} {text content : List CodeUnit} {k : Nat}
    {start stop : Nat} (here : ranges[k]? = some (some (start, stop)))
    (ordered : ∀ {i j s e s' e' : Nat}, ranges[i]? = some (some (s, e)) →
      ranges[j]? = some (some (s', e')) → i < j → e ≤ s')
    (each : ∀ {i s e : Nat}, ranges[i]? = some (some (s, e)) → s ≤ e) (inside : stop ≤ text.length) :
    SiblingsKept ranges text (replaced text start stop content) k content := by
  intro start' stop' same j s e there
  rw [here] at same
  cases same
  have order := each here
  constructor
  · intro before
    exact slice_replaced_before text content (ordered there here before) (order.trans inside)
  · intro behind
    exact slice_replaced_behind text content (ordered here there behind) (each there)
      (order.trans inside)

/-! ## An edit mapped to none -/

/-- No run of the ranges has the window in it. -/
def Spans (ranges : List (Option (Nat × Nat))) (p oldEnd : Nat) : Prop :=
  ∀ j start stop : Nat, ranges[j]? = some (some (start, stop)) → ¬(start ≤ p ∧ oldEnd ≤ stop)

theorem spans_of_editTarget {ranges : List (Option (Nat × Nat))} {p oldEnd : Nat}
    (order : p ≤ oldEnd) (missed : editTarget ranges p oldEnd = none) : Spans ranges p oldEnd := by
  intro j start stop here
  have mem := List.mem_of_getElem? here
  have refused {holds : Nat × Nat → Bool}
      (absent : (ranges.findIdx? fun range => range.any holds) = none) :
      holds (start, stop) = false := by
    have := List.findIdx?_eq_none_iff.mp absent _ mem
    simpa using this
  simp only [editTarget, Option.orElse_eq_orElse, Option.orElse_eq_or] at missed
  split at missed
  · have covers := refused missed
    simp only [Bool.and_eq_false_iff, decide_eq_false_iff_not] at covers
    omega
  · -- The caret is inside the run, or at one of its ends.
    rw [Option.or_eq_none_iff, Option.or_eq_none_iff] at missed
    have inside := refused missed.1
    have behind := refused missed.2.1
    have before := refused missed.2.2
    simp only [Bool.and_eq_false_iff, decide_eq_false_iff_not, beq_eq_false_iff_ne] at *
    omega

theorem length_lineRunCharRanges (out : List CodeUnit) (runs : List SessionLineRunSnapshot) :
    (lineRunCharRanges out runs).length = runs.length := by
  induction runs generalizing out with
  | nil => rfl
  | cons run rest ih =>
    rw [lineRunCharRanges]
    split <;> rw [List.length_cons, List.length_cons, ih]

theorem mapLineEdit_eq_none {runs : List SessionLineRunSnapshot} {newText : List CodeUnit}
    (edited : newText ≠ joinLineRunContents runs)
    (missed : mapLineEditToSingleRun runs (joinLineRunContents runs) newText = none) {p s : Nat}
    (window : Window (joinLineRunContents runs) newText p s) :
    Spans (lineRunCharRanges [] runs) p ((joinLineRunContents runs).length - s) := by
  have fits := window.fits
  obtain ⟨rfl, rfl⟩ := window_iff.mp window
  by_cases empty : runs = []
  · subst empty
    intro j start stop here
    simp [lineRunCharRanges] at here
  · apply spans_of_editTarget (by omega)
    by_contra found
    obtain ⟨k, target⟩ := Option.ne_none_iff_exists'.mp found
    obtain ⟨start, stop, range, -⟩ := editTarget_covers (by omega) target
    have inside := (List.getElem?_eq_some_iff.mp range).1
    rw [length_lineRunCharRanges] at inside
    have run := List.getElem?_eq_getElem inside
    have both := List.getElem?_zip_eq_some (z := (runs[k], some (start, stop))) |>.mpr ⟨run, range⟩
    simp [mapLineEditToSingleRun, empty, Ne.symm edited, target, both] at missed

/-! ## The commit of a line -/

section
variable {numberText : ℚ → String} {generateId : Nat → Nat → String} {tb : SessionTextbox}
  {lines : List (List SessionLineRunSnapshot)}

theorem commit_eq_update (session : tb.data.lineRuns = some lines) (keeps : NoReflow tb lines)
    (edited : logicalLines tb ≠ baselineTexts tb lines) :
    commitParagraphSession numberText generateId tb = .update (updateElements tb lines) := by
  rw [commitParagraphSession, session]
  cases lines with
  | nil =>
    have none := keeps.1
    rw [logicalLines, List.length_nil, List.length_eq_zero_iff] at none
    exact absurd none (List.splitOn_ne_nil _ _)
  | cons runs rest =>
    simp only [edited, false_and, if_false, if_pos keeps]

theorem updateElements_split {i : Nat} {runs : List SessionLineRunSnapshot}
    (here : lines[i]? = some runs) : ∃ before after, updateElements tb lines =
      before ++ lineElements tb (moveDelta tb) runs (baselineTexts tb lines)[i]?
        (logicalLines tb)[i]? ++ after := by
  rw [updateElements]
  generalize baselineTexts tb lines = baseline
  obtain ⟨before, after, rfl, rfl⟩ := split_at here
  rw [List.zipIdx_append, List.zipIdx_cons, List.flatMap_append, List.flatMap_cons, Nat.zero_add]
  exact ⟨_, _, (List.append_assoc _ _ _).symm⟩

/-- The elements of a line that is rewritten: one for each run, and the text is all in the first. -/
theorem lineElements_spanned {d : ℚ × ℚ} {runs : List SessionLineRunSnapshot}
    {oldText newText : List CodeUnit} (nonempty : runs ≠ []) (edited : newText ≠ oldText)
    (missed : mapLineEditToSingleRun runs oldText newText = none) :
    let elements := lineElements tb d runs (some oldText) (some newText)
    elements.map TextElement.elementId = runs.map SessionLineRunSnapshot.elementId ∧
      elements.flatMap TextElement.content = newText := by
  obtain ⟨run, rest, rfl⟩ := List.exists_cons_of_ne_nil nonempty
  rw [lineElements_coarse edited missed]
  constructor
  · simp [sessionRunToElement, Function.comp_def]
  · simp [sessionRunToElement, List.flatMap_map]

end

/-- An edit that is mapped to a run replaces the characters of this run in the text. It is mapped to
none only if no run has the window, and the elements of the line then contain the new text. -/
theorem mapLineEdit_exact (runs : List SessionLineRunSnapshot) (newText : List CodeUnit)
    (edited : newText ≠ joinLineRunContents runs) :
    let oldText := joinLineRunContents runs
    let ranges := lineRunCharRanges [] runs
    (∀ k content, mapLineEditToSingleRun runs oldText newText = some (k, content) →
      (∃ start stop, ranges[k]? = some (some (start, stop)) ∧
        newText = replaced oldText start stop content) ∧
      SiblingsKept ranges oldText newText k content) ∧
    (mapLineEditToSingleRun runs oldText newText = none →
      (∀ p s, Window oldText newText p s → Spans ranges p (oldText.length - s)) ∧
      (runs ≠ [] → ∀ (numberText : ℚ → String) (generateId : Nat → Nat → String)
        (tb : SessionTextbox) (lines : List (List SessionLineRunSnapshot)) (i : Nat),
        tb.data.lineRuns = some lines → NoReflow tb lines → lines[i]? = some runs →
        (baselineTexts tb lines)[i]? = some oldText → (logicalLines tb)[i]? = some newText →
        ∃ before elements after,
          commitParagraphSession numberText generateId tb =
            .update (before ++ elements ++ after) ∧
          elements.map TextElement.elementId = runs.map SessionLineRunSnapshot.elementId ∧
          elements.flatMap TextElement.content = newText)) := by
  refine ⟨fun k content mapped => ?_, fun missed => ⟨fun p s window => ?_, ?_⟩⟩
  · obtain ⟨start, stop, here, inside, rfl⟩ := mapLineEdit_replaced mapped
    refine ⟨⟨start, stop, here, rfl⟩, siblings_kept here ranges_ordered ?_ inside⟩
    intro j s e there
    exact (lineRunCharRanges_after (List.mem_of_getElem? there) rfl).2
  · exact mapLineEdit_eq_none edited missed window
  · intro nonempty numberText generateId tb lines i session keeps here old new
    have changed : logicalLines tb ≠ baselineTexts tb lines := by
      intro same
      rw [same, old, Option.some_inj] at new
      exact edited new.symm
    obtain ⟨before, after, split⟩ := @updateElements_split tb lines i runs here
    rw [old, new] at split
    refine ⟨before, lineElements tb (moveDelta tb) runs (some _) (some newText), after, ?_,
      lineElements_spanned nonempty edited missed⟩
    rw [commit_eq_update session keeps changed, split]

/-- A word is corrected in the second run; an edit across both runs is mapped to none. -/
theorem mapLineEdit_exact_two_runs :
    let runs := [helveticaRun "a" "big " 0 0, helveticaRun "b" "cat" 20 0]
    codeUnits "big car" = replaced (joinLineRunContents runs) 4 7 (codeUnits "car") ∧
      mapLineEditToSingleRun runs (joinLineRunContents runs) (codeUnits "bat") = none ∧
      Spans (lineRunCharRanges [] runs) 1 5 := by
  intro runs
  obtain ⟨exact_, -⟩ := mapLineEdit_exact runs (codeUnits "big car") (by decide)
  obtain ⟨⟨start, stop, here, text⟩, -⟩ := exact_ 1 (codeUnits "car") (by decide)
  have range : (lineRunCharRanges [] runs)[1]? = some (some (4, 7)) := by decide
  rw [range] at here
  cases here
  have missed : mapLineEditToSingleRun runs (joinLineRunContents runs) (codeUnits "bat") = none := by
    decide
  obtain ⟨-, spans⟩ := mapLineEdit_exact runs (codeUnits "bat") (by decide)
  exact ⟨text, missed, (spans missed).1 1 2 (window_iff.mpr (by decide))⟩

end GigaPdf.ParagraphSession
