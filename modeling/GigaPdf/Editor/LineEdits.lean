import GigaPdf.Editor.ParagraphSession

/-!
# Edits of a line

The runs of a line are joined with a space wherever two of them would meet without one. An edit that
falls into one run gives this run a new content, next to which other spaces may be put than next to
the old one. The runs then do not join to the text that was typed.
-/

namespace GigaPdf.ParagraphSession

/-! ## Joined texts -/

/-- What is put between two texts. Nothing is put next to an empty one. -/
def gap (a b : List CodeUnit) : List CodeUnit := if b = [] then [] else separator a b

def joined (a b : List CodeUnit) : List CodeUnit := a ++ gap a b ++ b

@[simp] theorem separator_nil (b : List CodeUnit) : separator [] b = [] := by
  simp [separator]

@[simp] theorem gap_nil_left (b : List CodeUnit) : gap [] b = [] := by
  simp [gap]

@[simp] theorem gap_nil_right (a : List CodeUnit) : gap a [] = [] := by
  simp [gap]

@[simp] theorem joined_nil_left (b : List CodeUnit) : joined [] b = b := by
  simp [joined]

@[simp] theorem joined_nil_right (a : List CodeUnit) : joined a [] = a := by
  simp [joined]

theorem gap_of_ne_nil {a b : List CodeUnit} (nonempty : b ≠ []) : gap a b = separator a b :=
  if_neg nonempty

/-- Only the end of the first text and the start of the second matter. -/
theorem separator_append_left {a b : List CodeUnit} (nonempty : b ≠ []) (c : List CodeUnit) :
    separator (a ++ b) c = separator b c := by
  simp [separator, List.getLast?_append_of_ne_nil _ nonempty, nonempty]

theorem separator_append_right (a : List CodeUnit) {b : List CodeUnit} (nonempty : b ≠ [])
    (c : List CodeUnit) : separator a (b ++ c) = separator a b := by
  obtain ⟨x, b, rfl⟩ := List.exists_cons_of_ne_nil nonempty
  rfl

theorem gap_append_left {a b : List CodeUnit} (nonempty : b ≠ []) (c : List CodeUnit) :
    gap (a ++ b) c = gap b c := by
  simp [gap, separator_append_left nonempty]

theorem gap_append_right (a : List CodeUnit) {b : List CodeUnit} (nonempty : b ≠ [])
    (c : List CodeUnit) : gap a (b ++ c) = gap a b := by
  simp [gap, separator_append_right a nonempty, nonempty]

theorem joined_joined (a : List CodeUnit) {b : List CodeUnit} (nonempty : b ≠ [])
    (c : List CodeUnit) : joined a (joined b c) = a ++ gap a b ++ b ++ gap b c ++ c := by
  rw [joined, joined, List.append_assoc b, gap_append_right a nonempty]
  simp only [List.append_assoc]

theorem joinPieces_eq (out : List CodeUnit) (pieces : List (List CodeUnit)) :
    joinPieces out pieces = joined out (joinPieces [] pieces) := by
  induction pieces generalizing out with
  | nil => rw [joinPieces, joinPieces, joined_nil_right]
  | cons piece pieces ih =>
    rw [joinPieces, joinPieces]
    split
    · exact ih out
    · rename_i nonempty
      rw [separator_nil, List.nil_append, List.nil_append, ih, ih piece, joined_joined _ nonempty,
        joined, gap_append_left nonempty, gap_of_ne_nil nonempty]

theorem joinPieces_append (out : List CodeUnit) (first second : List (List CodeUnit)) :
    joinPieces out (first ++ second) = joinPieces (joinPieces out first) second := by
  induction first generalizing out with
  | nil => rfl
  | cons piece first ih =>
    rw [List.cons_append, joinPieces, joinPieces]
    split
    · exact ih out
    · exact ih _

/-- A line is joined from what is before a run, the run, and what is after it. -/
theorem join_split (before : List SessionLineRunSnapshot) (run : SessionLineRunSnapshot)
    (after : List SessionLineRunSnapshot) :
    joinLineRunContents (before ++ run :: after) =
      joined (joinLineRunContents before)
        (joined run.content (joinLineRunContents after)) := by
  rw [joinLineRunContents, List.map_append, joinPieces_append, joinPieces_eq, List.map_cons,
    joinPieces]
  split
  · rename_i empty
    rw [empty, joined_nil_left]
    rfl
  · rw [separator_nil, List.nil_append, List.nil_append, joinPieces_eq run.content]
    rfl

/-! ## An edit mapped to a run -/

theorem lineRunCharRanges_at (out : List CodeUnit) (before : List SessionLineRunSnapshot)
    (run : SessionLineRunSnapshot) (after : List SessionLineRunSnapshot) :
    (lineRunCharRanges out (before ++ run :: after))[before.length]? =
      let start := joinPieces out (before.map SessionLineRunSnapshot.content)
      let length := (start ++ separator start run.content).length
      some (if run.content = [] then none else some (length, length + run.content.length)) := by
  induction before generalizing out with
  | nil =>
    rw [List.nil_append, lineRunCharRanges]
    split
    · rfl
    · rfl
  | cons first before ih =>
    rw [List.cons_append, lineRunCharRanges, List.map_cons, joinPieces]
    split
    · exact ih out
    · exact ih _

/-- The run of an edit covers it. -/
theorem editTarget_covers {ranges : List (Option (Nat × Nat))} {p oldEnd k : Nat}
    (ordered : p ≤ oldEnd) (target : editTarget ranges p oldEnd = some k) :
    ∃ start stop, ranges[k]? = some (some (start, stop)) ∧
      (start ≤ stop → start ≤ p ∧ oldEnd ≤ stop) := by
  have at_k {holds : Nat × Nat → Bool}
      (found : (ranges.findIdx? fun range => range.any holds) = some k) :
      ∃ start stop, ranges[k]? = some (some (start, stop)) ∧ holds (start, stop) = true := by
    obtain ⟨bound, here, _⟩ := List.findIdx?_eq_some_iff_getElem.mp found
    obtain ⟨⟨start, stop⟩, range, held⟩ := (Option.any_eq_true _ _).mp here
    exact ⟨start, stop, by rw [List.getElem?_eq_getElem bound, range], held⟩
  simp only [editTarget, Option.orElse_eq_orElse, Option.orElse_eq_or] at target
  split at target
  · obtain ⟨start, stop, here, held⟩ := at_k target
    simp only [Bool.and_eq_true, decide_eq_true_iff] at held
    exact ⟨start, stop, here, fun _ => held⟩
  · rw [Option.or_eq_some_iff, Option.or_eq_some_iff] at target
    rcases target with inside | ⟨_, behind | ⟨_, before⟩⟩
    · obtain ⟨start, stop, here, held⟩ := at_k inside
      simp only [Bool.and_eq_true, decide_eq_true_iff] at held
      exact ⟨start, stop, here, by omega⟩
    · obtain ⟨start, stop, here, held⟩ := at_k behind
      simp only [beq_iff_eq] at held
      exact ⟨start, stop, here, by omega⟩
    · obtain ⟨start, stop, here, held⟩ := at_k before
      simp only [beq_iff_eq] at held
      exact ⟨start, stop, here, by omega⟩

/-- The whole edit falls into the run, and its new content stands in the place of the old. -/
theorem mapLineEdit_eq_some {runs : List SessionLineRunSnapshot} {oldText newText : List CodeUnit}
    {k : Nat} {content : List CodeUnit}
    (mapped : mapLineEditToSingleRun runs oldText newText = some (k, content)) :
    ∃ before run after, runs = before ++ run :: after ∧ before.length = k ∧ run.content ≠ [] ∧
      newText = joinLineRunContents before ++ gap (joinLineRunContents before) run.content ++
        (content ++ (gap run.content (joinLineRunContents after) ++ joinLineRunContents after)) := by
  simp only [mapLineEditToSingleRun, Option.bind_eq_bind, Option.bind_eq_some_iff,
    Option.pure_def, Option.some.injEq, Prod.mk.injEq, Option.guard_eq_some'] at mapped
  obtain ⟨_, _, _, joins, target, onTarget, ⟨run, _⟩, at_k, ⟨start, stop⟩, rfl, rfl, rfl⟩ := mapped
  obtain ⟨onRun, onRange⟩ : runs[target]? = some run ∧
      (lineRunCharRanges [] runs)[target]? = some (some (start, stop)) :=
    List.getElem?_zip_eq_some.mp at_k
  obtain ⟨before, after, rfl, rfl⟩ := Windows.split_at onRun
  rw [join_split] at joins
  have range := lineRunCharRanges_at [] before run after
  rw [onRange, Option.some_inj] at range
  obtain ⟨nonempty, range⟩ := Option.ite_none_left_eq_some.mp range.symm
  refine ⟨before, run, after, rfl, rfl, nonempty, ?_⟩
  rw [joined_joined _ nonempty] at joins
  have within := Windows.commonSuffix_le oldText newText
  have front := Windows.take_commonPrefix oldText newText le_rfl
  have back := Windows.drop_commonSuffix oldText newText
  generalize Windows.commonPrefix oldText newText = p at *
  generalize Windows.commonSuffix oldText newText = s at *
  obtain ⟨start', stop', here, covers⟩ := editTarget_covers (by omega) onTarget
  rw [onRange] at here
  cases here
  rw [← gap_of_ne_nil nonempty] at range
  obtain ⟨rfl, rfl⟩ := Prod.mk.inj (Option.some_inj.mp range)
  obtain ⟨low, high⟩ := covers (by omega)
  exact Windows.splice (by rw [← joins]; simp only [List.append_assoc]) front back (by omega)
    (by omega) low high

/-! ## The edited line -/

section
variable {runs : List SessionLineRunSnapshot} {oldText newText : List CodeUnit}

/-- The line with the contents that the commit of an edit leaves. -/
def editedLine (runs : List SessionLineRunSnapshot) (oldText newText : List CodeUnit) :
    List SessionLineRunSnapshot :=
  refreshLine runs (some oldText) (some newText)

theorem editedLine_same (runs : List SessionLineRunSnapshot) (text : List CodeUnit) :
    editedLine runs text text = runs := by
  simp [editedLine, refreshLine]

theorem editedLine_mapped {runIndex : Nat} {content : List CodeUnit} (edited : newText ≠ oldText)
    (mapped : mapLineEditToSingleRun runs oldText newText = some (runIndex, content)) :
    editedLine runs oldText newText =
      runs.modify runIndex fun run => { run with content := content } := by
  simp [editedLine, refreshLine, edited, mapped]

theorem modify_content_getElem? (runs : List SessionLineRunSnapshot) (runIndex : Nat)
    (content : List CodeUnit) (j : Nat) :
    (runs.modify runIndex fun run => { run with content := content })[j]? =
      runs[j]?.map fun run => if j = runIndex then { run with content := content } else run := by
  rw [List.getElem?_modify, Option.map_eq_map]
  simp only [eq_comm]

theorem editedLine_coarse {run : SessionLineRunSnapshot} {rest : List SessionLineRunSnapshot}
    (edited : newText ≠ oldText)
    (spans : mapLineEditToSingleRun (run :: rest) oldText newText = none) :
    editedLine (run :: rest) oldText newText =
      { run with content := newText } :: rest.map fun run => { run with content := [] } := by
  simp [editedLine, refreshLine, edited, spans]

theorem mapLineEdit_nil (oldText newText : List CodeUnit) :
    mapLineEditToSingleRun [] oldText newText = none := by
  simp [mapLineEditToSingleRun]

theorem mapLineEdit_same (runs : List SessionLineRunSnapshot) (text : List CodeUnit) :
    mapLineEditToSingleRun runs text text = none := by
  simp [mapLineEditToSingleRun]

/-- An edit changes contents, and no other field of a run. -/
theorem editedLine_getElem? (runs : List SessionLineRunSnapshot) (oldText newText : List CodeUnit)
    (j : Nat) : ∃ content : SessionLineRunSnapshot → List CodeUnit,
      (editedLine runs oldText newText)[j]? =
        runs[j]?.map fun run => { run with content := content run } := by
  by_cases edited : newText = oldText
  · rw [edited, editedLine_same]
    exact ⟨SessionLineRunSnapshot.content, Option.map_id'.symm⟩
  · cases mapped : mapLineEditToSingleRun runs oldText newText with
    | some target =>
      rw [editedLine_mapped edited mapped, modify_content_getElem?]
      by_cases here : j = target.1
      · use fun _ => target.2
        cases runs[j]? <;> simp [here]
      · use SessionLineRunSnapshot.content
        cases runs[j]? <;> simp [here]
    | none =>
      cases runs with
      | nil => exact ⟨fun _ => [], by simp [editedLine, refreshLine, edited, mapLineEdit_nil]⟩
      | cons run rest =>
        rw [editedLine_coarse edited mapped]
        cases j with
        | zero => exact ⟨fun _ => newText, rfl⟩
        | succ j => exact ⟨fun _ => [], by simp⟩

theorem editedLine_at {j : Nat} {run : SessionLineRunSnapshot} (hj : runs[j]? = some run)
    (oldText newText : List CodeUnit) : ∃ content,
      (editedLine runs oldText newText)[j]? = some { run with content := content } := by
  obtain ⟨content, entry⟩ := editedLine_getElem? runs oldText newText j
  rw [hj, Option.map_some] at entry
  exact ⟨content run, entry⟩

theorem editedLine_ids (runs : List SessionLineRunSnapshot) (oldText newText : List CodeUnit) :
    (editedLine runs oldText newText).map SessionLineRunSnapshot.elementId =
      runs.map SessionLineRunSnapshot.elementId := by
  apply List.ext_getElem?
  intro j
  obtain ⟨content, entry⟩ := editedLine_getElem? runs oldText newText j
  rw [List.getElem?_map, List.getElem?_map, entry, Option.map_map]
  rfl

theorem joinPieces_empty (out : List CodeUnit) {pieces : List (List CodeUnit)}
    (empty : ∀ piece ∈ pieces, piece = []) : joinPieces out pieces = out := by
  induction pieces with
  | nil => rfl
  | cons piece pieces ih =>
    rw [List.forall_mem_cons] at empty
    rw [joinPieces, if_pos empty.1, ih empty.2]

/-- A line that is rewritten on its first run has the new text. -/
theorem join_coarse (run : SessionLineRunSnapshot) (rest : List SessionLineRunSnapshot)
    (text : List CodeUnit) :
    joinLineRunContents ({ run with content := text } ::
      rest.map fun run => { run with content := [] }) = text := by
  have empty : ∀ piece ∈ (rest.map fun run => { run with content := [] }).map
      SessionLineRunSnapshot.content, piece = [] := by
    simp
  rw [joinLineRunContents, List.map_cons, joinPieces]
  split
  · rename_i none
    rw [joinPieces_empty _ empty]
    exact none.symm
  · rw [joinPieces_empty _ empty]
    simp [separator]

end

/-! ## Whether the runs join to the text -/

/-- The run at `k` is put next to its neighbours with the content as it is put with its own. -/
def SameGaps (runs : List SessionLineRunSnapshot) (k : Nat) (content : List CodeUnit) : Prop :=
  let before := joinLineRunContents (runs.take k)
  let after := joinLineRunContents (runs.drop (k + 1))
  let own := (runs[k]?.map SessionLineRunSnapshot.content).getD []
  if content = [] then gap before after = gap before own ++ gap own after
  else gap before content = gap before own ∧ gap content after = gap own after

theorem gap_cases (a b : List CodeUnit) : gap a b = [] ∨ gap a b = [space] := by
  rw [gap]
  split
  · exact .inl rfl
  · rw [separator]
    split
    · exact .inl rfl
    · exact .inr rfl

theorem gap_before_space (a b : List CodeUnit) : gap a (space :: b) = [] := by
  rw [gap, if_neg (List.cons_ne_nil _ _), separator, if_pos (.inr (.inr rfl))]

theorem gap_after_space {a : List CodeUnit} (last : a.getLast? = some space) (b : List CodeUnit) :
    gap a b = [] := by
  rw [gap]
  split
  · rfl
  · rw [separator, if_pos (.inr (.inl (by rw [last]; rfl)))]

/-- Around one text, different gaps make different texts. -/
theorem gaps_inj {a b c after : List CodeUnit} (own : List CodeUnit) (nonempty : c ≠ []) :
    gap a c ++ (c ++ gap c after) = gap a b ++ (c ++ gap own after) ↔
      gap a c = gap a b ∧ gap c after = gap own after := by
  constructor
  · intro same
    rcases gap_cases a c with start | start <;> rcases gap_cases a b with start' | start'
    · rw [start, start', List.append_cancel_left_eq, List.append_cancel_left_eq] at same
      exact ⟨start.trans start'.symm, same⟩
    · -- The text would end with a space, and nothing is put behind it.
      rw [start, start'] at same
      have lengths := congrArg List.length same
      simp only [List.length_append, List.length_nil, List.length_singleton] at lengths
      have stop : gap c after = [space] := by
        rcases gap_cases c after with none | one
        · rw [none, List.length_nil] at lengths
          omega
        · exact one
      have stop' : gap own after = [] := by
        rw [stop, List.length_singleton] at lengths
        exact List.length_eq_zero_iff.mp (by omega)
      have ends := congrArg List.getLast? same
      rw [stop, stop', List.append_nil, List.nil_append, List.getLast?_concat,
        List.getLast?_append_of_ne_nil _ nonempty] at ends
      rw [gap_after_space ends.symm] at stop
      cases stop
    · -- The text would start with a space, and nothing is put before it.
      obtain ⟨x, c, rfl⟩ := List.exists_cons_of_ne_nil nonempty
      rw [start, start'] at same
      obtain rfl := (List.cons.inj same).1
      rw [gap_before_space] at start
      cases start
    · rw [start, start', List.append_cancel_left_eq, List.append_cancel_left_eq] at same
      exact ⟨start.trans start'.symm, same⟩
  · rintro ⟨start, stop⟩
    rw [start, stop]

theorem sameGaps_at (before : List SessionLineRunSnapshot) (run : SessionLineRunSnapshot)
    (after : List SessionLineRunSnapshot) (content : List CodeUnit) :
    SameGaps (before ++ run :: after) before.length content ↔
      let b := joinLineRunContents before
      let a := joinLineRunContents after
      if content = [] then gap b a = gap b run.content ++ gap run.content a
      else gap b content = gap b run.content ∧ gap content a = gap run.content a := by
  simp [SameGaps]

/-- The runs join to the text of the edit exactly if the gaps around the edited run stay. -/
theorem join_mapped_iff {runs : List SessionLineRunSnapshot} {oldText newText : List CodeUnit}
    {k : Nat} {content : List CodeUnit}
    (mapped : mapLineEditToSingleRun runs oldText newText = some (k, content)) :
    joinLineRunContents (runs.modify k fun run => { run with content := content }) = newText ↔
      SameGaps runs k content := by
  obtain ⟨before, run, after, rfl, rfl, nonempty, rfl⟩ := mapLineEdit_eq_some mapped
  have modified : (before ++ run :: after).modify before.length
      (fun run => { run with content := content }) =
        before ++ { run with content := content } :: after := by
    rw [List.modify_eq_take_cons_drop (by simp)]
    simp
  rw [modified, join_split, sameGaps_at]
  simp only
  split
  · rename_i empty
    rw [empty, joined_nil_left, joined, List.nil_append, ← List.append_assoc (_ ++ _),
      List.append_cancel_right_eq, List.append_assoc, List.append_cancel_left_eq]
  · rename_i kept
    rw [joined_joined _ kept, ← gaps_inj _ kept]
    simp only [List.append_assoc]
    rw [List.append_cancel_left_eq]
    simp only [← List.append_assoc]
    rw [List.append_cancel_right_eq]

/-- An edit that is mapped to one run keeps the gaps around it. -/
def KeepsText (runs : List SessionLineRunSnapshot) (oldText newText : List CodeUnit) : Prop :=
  ∀ target ∈ mapLineEditToSingleRun runs oldText newText, SameGaps runs target.1 target.2

theorem join_editedLine_iff {runs : List SessionLineRunSnapshot} (nonempty : runs ≠ [])
    (oldText newText : List CodeUnit)
    (baseline : newText = oldText → joinLineRunContents runs = oldText) :
    joinLineRunContents (editedLine runs oldText newText) = newText ↔
      KeepsText runs oldText newText := by
  by_cases edited : newText = oldText
  · subst edited
    rw [editedLine_same, KeepsText, mapLineEdit_same]
    simp [baseline]
  · cases mapped : mapLineEditToSingleRun runs oldText newText with
    | some target =>
      rw [editedLine_mapped edited mapped, join_mapped_iff mapped, KeepsText, mapped]
      simp
    | none =>
      obtain ⟨run, rest, rfl⟩ := List.exists_cons_of_ne_nil nonempty
      rw [editedLine_coarse edited mapped, join_coarse, KeepsText, mapped]
      simp

end GigaPdf.ParagraphSession
