import GigaPdf.Editor.ParagraphSession
import Mathlib.Data.List.SplitBy
import Mathlib.Data.List.Nodup
import Mathlib.Data.List.Pairwise
import Mathlib.Tactic.Linarith

/-!
# Reflow of a paragraph

When the number of lines changes, every source run is removed and the visual lines are added. The
runs of a line all get the box of the line, and a run takes the id of the first source run with its
style. A line of several styles therefore overlaps itself, and two lines of one style share an id.
-/

namespace GigaPdf.ParagraphSession

/-! ## Groups of one style -/

section
variable (numberText : ℚ → String)

theorem styleGroups_slices (group : StyleGroup) (c : Nat)
    (rest : List (CodeUnit × CharStyleSnapshot)) :
    (styleGroups numberText group c rest).flatMap StyleGroup.slice =
      group.slice ++ rest.map Prod.fst := by
  induction rest generalizing group c with
  | nil => simp [styleGroups]
  | cons next rest ih =>
    rw [styleGroups]
    split
    · simp [ih]
    · simp [ih]

/-- The first group starts where the group at hand does, and has its style. -/
theorem styleGroups_head (group : StyleGroup) (c : Nat)
    (rest : List (CodeUnit × CharStyleSnapshot)) :
    ∃ slice later, styleGroups numberText group c rest =
      ⟨group.runStart, group.style, slice⟩ :: later := by
  induction rest generalizing group c with
  | nil => exact ⟨group.slice, [], rfl⟩
  | cons next rest ih =>
    rw [styleGroups]
    split
    · exact ⟨group.slice, _, rfl⟩
    · exact ih { group with slice := group.slice ++ [next.1] } (c + 1)

/-- There is one group when every key is the key of the first character. -/
theorem styleGroups_length_one_iff (group : StyleGroup) (c : Nat)
    (rest : List (CodeUnit × CharStyleSnapshot)) :
    (styleGroups numberText group c rest).length = 1 ↔
      ∀ next ∈ rest, charStyleKey numberText next.2 = charStyleKey numberText group.style := by
  induction rest generalizing group c with
  | nil => simp [styleGroups]
  | cons next rest ih =>
    rw [styleGroups, List.forall_mem_cons]
    by_cases same : charStyleKey numberText next.2 = charStyleKey numberText group.style
    · rw [if_neg (not_not.mpr same)]
      rw [ih { group with slice := group.slice ++ [next.1] } (c + 1)]
      simp [same]
    · obtain ⟨slice, later, head⟩ :=
        styleGroups_head numberText ⟨c, next.2, [next.1]⟩ (c + 1) rest
      rw [if_pos same, head]
      simp [same]

end

/-! ## Style windows -/

section
variable {tb : SessionTextbox}

theorem extract_length {i n : Nat} {styles : List CharStyleSnapshot}
    (extracted : extractVisualLineCharStyles tb i n = some styles) : styles.length = n := by
  simp only [extractVisualLineCharStyles, Option.bind_eq_bind, Option.bind_eq_some_iff,
    Option.pure_def, Option.some.injEq] at extracted
  obtain ⟨_, _, ⟨lineStyles, offset⟩, _, _, _, rfl⟩ := extracted
  simp

theorem extract_empty (i : Nat) : extractVisualLineCharStyles tb i 0 = none := by
  simp [extractVisualLineCharStyles]

end

/-! ## The runs of one line -/

section
variable (numberText : ℚ → String)

theorem lineGroups_slices {text : List CodeUnit} {styles : List CharStyleSnapshot}
    (lengths : styles.length = text.length) :
    (lineGroups numberText text styles).flatMap StyleGroup.slice = text := by
  have texts : (text.zip styles).map Prod.fst = text := List.map_fst_zip (by omega)
  rw [lineGroups]
  cases zipped : text.zip styles with
  | nil => simpa [zipped] using texts
  | cons first rest =>
    rw [zipped, List.map_cons] at texts
    simpa [styleGroups_slices] using texts

variable (tb : SessionTextbox)

/-- The characters of a line have one key. -/
def OneKey (i : Nat) (text : List CodeUnit) : Prop :=
  ∀ styles ∈ extractVisualLineCharStyles tb i text.length, ∀ s ∈ styles, ∀ s' ∈ styles,
    charStyleKey numberText s = charStyleKey numberText s'

/-- The key of the first character of a line whose characters override styles. -/
def lineKey (i : Nat) (text : List CodeUnit) : Option String :=
  ((extractVisualLineCharStyles tb i text.length).bind List.head?).map (charStyleKey numberText)

variable (generateId : Nat → Nat → String) (lineRuns : List (List SessionLineRunSnapshot))

theorem addedLine_contents (i : Nat) (text : List CodeUnit) :
    (addedLine numberText generateId tb lineRuns i text).flatMap TextElement.content = text := by
  rw [addedLine]
  split
  · rename_i empty
    rw [empty]
    rfl
  · cases extracted : extractVisualLineCharStyles tb i text.length with
    | none => simp
    | some styles =>
      have slices := lineGroups_slices numberText (extract_length extracted)
      simpa [List.flatMap_map] using slices

/-- All runs of a line have the left edge, the top edge and the width of the box. -/
theorem addedLine_box {numberText generateId tb lineRuns} {i : Nat} {text : List CodeUnit}
    {el : TextElement}
    (mem : el ∈ addedLine numberText generateId tb lineRuns i text) :
    el.bounds = lineBox tb lineRuns i el.bounds.height := by
  rw [addedLine] at mem
  split at mem
  · exact absurd mem List.not_mem_nil
  · split at mem
    · rw [List.mem_singleton.mp mem]
      rfl
    · obtain ⟨group, _, rfl⟩ := List.mem_map.mp mem
      rfl

/-- What the first run of a line is called. -/
def lineId (i : Nat) (text : List CodeUnit) : String :=
  ((lineKey numberText tb i text).bind (sourceStyleByKey numberText lineRuns)).getD
    (generateId i 0)

theorem addedLine_head {text : List CodeUnit} (nonempty : text ≠ []) (i : Nat) :
    ∃ first later, addedLine numberText generateId tb lineRuns i text = first :: later ∧
      first.elementId = lineId numberText tb generateId lineRuns i text := by
  rw [addedLine, if_neg nonempty, lineId, lineKey]
  cases extracted : extractVisualLineCharStyles tb i text.length with
  | none => exact ⟨_, _, rfl, rfl⟩
  | some styles =>
    have lengths := extract_length extracted
    match text, styles, lengths with
    | c :: text, style :: styles, _ =>
      obtain ⟨slice, later, head⟩ :=
        styleGroups_head numberText ⟨0, style, [c]⟩ 1 (text.zip styles)
      simp [lineGroups, head]

theorem addedLine_eq_nil_iff (i : Nat) (text : List CodeUnit) :
    addedLine numberText generateId tb lineRuns i text = [] ↔ text = [] := by
  constructor
  · intro empty
    by_contra nonempty
    obtain ⟨first, later, added, _⟩ :=
      addedLine_head numberText tb generateId lineRuns nonempty i
    rw [empty] at added
    cases added
  · rintro rfl
    simp [addedLine]

/-- A line is added as one run exactly when its characters have one key. -/
theorem addedLine_length_one_iff {text : List CodeUnit} (nonempty : text ≠ []) (i : Nat) :
    (addedLine numberText generateId tb lineRuns i text).length = 1 ↔
      OneKey numberText tb i text := by
  rw [addedLine, if_neg nonempty, OneKey]
  cases extracted : extractVisualLineCharStyles tb i text.length with
  | none => simp
  | some styles =>
    have lengths := extract_length extracted
    match text, styles, lengths with
    | c :: text, style :: styles, lengths =>
      have snds : (text.zip styles).map Prod.snd = styles :=
        List.map_snd_zip (by simpa using lengths.le)
      have rests : (∀ next ∈ text.zip styles,
          charStyleKey numberText next.2 = charStyleKey numberText style) ↔
          ∀ s ∈ styles, charStyleKey numberText s = charStyleKey numberText style := by
        nth_rewrite 2 [← snds]
        simp only [List.forall_mem_map]
      simp only [List.length_map, lineGroups, List.zip_cons_cons, styleGroups_length_one_iff,
        rests, Option.mem_def, Option.some.injEq]
      constructor
      · rintro same _ rfl s mem s' mem'
        have (s) (mem : s ∈ style :: styles) :
            charStyleKey numberText s = charStyleKey numberText style := by
          rcases List.mem_cons.mp mem with rfl | mem
          · rfl
          · exact same s mem
        rw [this s mem, this s' mem']
      · intro same s mem
        exact same _ rfl s (List.mem_cons_of_mem _ mem) style List.mem_cons_self

/-! ## The lines of the added runs -/

theorem orNumber_ne_zero (n : Option ℚ) {d : ℚ} (nonzero : d ≠ 0) : orNumber n d ≠ 0 := by
  cases n with
  | none => exact nonzero
  | some n =>
    rw [orNumber]
    split
    · exact nonzero
    · assumption

theorem boxLineHeight_pos : 0 < boxLineHeight tb := by
  rw [boxLineHeight]
  split
  · split
    · assumption
    · norm_num
  · norm_num

theorem lineStep_ne_zero : lineStep tb ≠ 0 :=
  mul_ne_zero (orNumber_ne_zero tb.fontSize (by norm_num)) (boxLineHeight_pos tb).ne'

/-- The runs at one height are the runs of one visual line. -/
def byVisualLine (added : List TextElement) : List (List TextElement) :=
  added.splitBy fun a b => a.bounds.y == b.bounds.y

/-- The lines that have text, each with its number. -/
def textLinesOf : List (List CodeUnit × Nat) :=
  (visualLines tb).zipIdx.filter fun line => line.1 ≠ []

theorem mem_textLinesOf {line : List CodeUnit × Nat} :
    line ∈ textLinesOf tb ↔ (visualLines tb)[line.2]? = some line.1 ∧ line.1 ≠ [] := by
  rw [textLinesOf, List.mem_filter, List.mem_zipIdx_iff_getElem?, decide_eq_true_iff]

theorem textLinesOf_pairwise : (textLinesOf tb).Pairwise fun a b => a.2 < b.2 := by
  apply List.Pairwise.filter
  rw [← List.pairwise_map (f := Prod.snd) (R := fun i j : Nat => i < j), List.zipIdx_map_snd]
  exact List.pairwise_lt_range'

theorem addedElements_eq : addedElements numberText generateId tb lineRuns =
    ((textLinesOf tb).map fun line =>
      addedLine numberText generateId tb lineRuns line.2 line.1).flatten := by
  rw [addedElements, textLinesOf, ← List.flatMap_def]
  induction (visualLines tb).zipIdx with
  | nil => rfl
  | cons line lines ih =>
    by_cases empty : line.1 = []
    · rw [List.filter_cons_of_neg (by simpa using empty), List.flatMap_cons, ih]
      simp [(addedLine_eq_nil_iff numberText tb generateId lineRuns line.2 line.1).mpr empty]
    · rw [List.filter_cons_of_pos (by simpa using empty), List.flatMap_cons, List.flatMap_cons, ih]

theorem byVisualLine_added : byVisualLine (addedElements numberText generateId tb lineRuns) =
    (textLinesOf tb).map fun line =>
      addedLine numberText generateId tb lineRuns line.2 line.1 := by
  rw [addedElements_eq, byVisualLine]
  apply List.splitBy_flatten
  · intro empty
    obtain ⟨line, mem, added⟩ := List.mem_map.mp empty
    exact (mem_textLinesOf tb).mp mem |>.2 ((addedLine_eq_nil_iff _ _ _ _ _ _).mp added)
  · intro group mem
    obtain ⟨line, _, rfl⟩ := List.mem_map.mp mem
    apply List.Pairwise.isChain
    apply List.pairwise_of_forall_mem_list
    intro a ha b hb
    rw [addedLine_box ha, addedLine_box hb]
    exact beq_self_eq_true _
  · apply List.Pairwise.isChain
    rw [List.pairwise_map]
    apply (textLinesOf_pairwise tb).imp_of_mem
    intro a b ha hb before
    have nonempty {line} (mem : line ∈ textLinesOf tb) :
        addedLine numberText generateId tb lineRuns line.2 line.1 ≠ [] := by
      rw [Ne, addedLine_eq_nil_iff]
      exact ((mem_textLinesOf tb).mp mem).2
    use nonempty ha, nonempty hb
    rw [addedLine_box (List.getLast_mem _), addedLine_box (List.head_mem _)]
    rw [beq_eq_false_iff_ne]
    intro same
    have steps : ((a.2 : ℚ) - b.2) * lineStep tb = 0 := by
      simp only [lineBox] at same
      linarith
    have indices := (mul_eq_zero.mp steps).resolve_right (lineStep_ne_zero tb)
    have : (a.2 : ℚ) < b.2 := by exact_mod_cast before
    linarith

theorem byVisualLine_contents :
    (byVisualLine (addedElements numberText generateId tb lineRuns)).map
        (fun line => line.flatMap TextElement.content) =
      (visualLines tb).filter (· ≠ []) := by
  have texts : (textLinesOf tb).map Prod.fst = (visualLines tb).filter (· ≠ []) := by
    have := List.filter_map (f := Prod.fst) (l := (visualLines tb).zipIdx) (p := (· ≠ []))
    rw [List.zipIdx_map_fst] at this
    exact this.symm
  rw [byVisualLine_added, List.map_map, ← texts]
  exact List.map_congr_left fun line _ =>
    addedLine_contents numberText tb generateId lineRuns line.2 line.1

end

/-! ## What a reflow keeps -/

/-- `b` is to the right of `a`, which ends before it. -/
def Follows (a b : TextElement) : Prop :=
  a.bounds.x < b.bounds.x ∧ a.bounds.x + a.bounds.width ≤ b.bounds.x

/-- The reflow loses, duplicates and overlaps nothing. -/
structure ReflowSound (lineRuns : List (List SessionLineRunSnapshot))
    (visualLines : List (List CodeUnit)) (removed : List String) (added : List TextElement) :
    Prop where
  removed : ∀ run ∈ lineRuns.flatten, removed.count run.elementId = 1
  contents : (byVisualLine added).map (fun line => line.flatMap TextElement.content) =
    visualLines.filter (· ≠ [])
  distinct : (added.map TextElement.elementId).Nodup
  disjoint : ∀ line ∈ byVisualLine added, line.Pairwise Follows

/-- Every line has one style, and no two lines that override styles have the style of a source
run. -/
structure PlainReflow (numberText : ℚ → String) (tb : SessionTextbox)
    (lineRuns : List (List SessionLineRunSnapshot)) : Prop where
  sources : (removedElementIds lineRuns).Nodup
  oneKey : ∀ i text, (visualLines tb)[i]? = some text → OneKey numberText tb i text
  sourceKeys : ∀ run ∈ lineRuns.flatten, ∀ s ∈ run.style, ∀ i text j text',
    (visualLines tb)[i]? = some text → (visualLines tb)[j]? = some text' →
    lineKey numberText tb i text = some (runStyleKey numberText s) →
    lineKey numberText tb j text' = some (runStyleKey numberText s) → i = j

/-- `generateId()` yields new ids. -/
structure FreshIds (generateId : Nat → Nat → String)
    (lineRuns : List (List SessionLineRunSnapshot)) : Prop where
  distinct : ∀ i c j d, generateId i c = generateId j d → i = j ∧ c = d
  new : ∀ i c, generateId i c ∉ removedElementIds lineRuns

section
variable {numberText : ℚ → String} {generateId : Nat → Nat → String} {tb : SessionTextbox}
  {lineRuns : List (List SessionLineRunSnapshot)}

theorem commit_eq_reflow {removed : List String} {added : List TextElement}
    (session : tb.data.lineRuns = some lineRuns)
    (commit : commitParagraphSession numberText generateId tb = .reflow removed added) :
    removed = removedElementIds lineRuns ∧
      added = addedElements numberText generateId tb lineRuns := by
  rw [commitParagraphSession, session] at commit
  split at commit
  · cases commit
  · cases commit
  · rename_i same
    cases same
    split_ifs at commit
    cases commit
    exact ⟨rfl, rfl⟩

theorem removed_once_iff :
    (∀ run ∈ lineRuns.flatten, (removedElementIds lineRuns).count run.elementId = 1) ↔
      (removedElementIds lineRuns).Nodup := by
  rw [List.nodup_iff_count_eq_one, removedElementIds, List.forall_mem_map]

/-- The runs of one line have one left edge. -/
theorem addedLine_disjoint_iff {text : List CodeUnit} (nonempty : text ≠ []) (i : Nat) :
    (addedLine numberText generateId tb lineRuns i text).Pairwise Follows ↔
      OneKey numberText tb i text := by
  rw [← addedLine_length_one_iff numberText tb generateId lineRuns nonempty]
  obtain ⟨first, later, added, _⟩ := addedLine_head numberText tb generateId lineRuns nonempty i
  constructor
  · intro disjoint
    cases later with
    | nil => rw [added, List.length_singleton]
    | cons second later =>
      have boxes : ∀ el ∈ first :: second :: later,
          el.bounds = lineBox tb lineRuns i el.bounds.height := by
        rw [← added]
        exact fun el mem => addedLine_box mem
      rw [added] at disjoint
      have follows := (List.pairwise_cons.mp disjoint).1 second List.mem_cons_self
      have left := follows.1
      rw [boxes first List.mem_cons_self,
        boxes second (List.mem_cons_of_mem _ List.mem_cons_self)] at left
      exact absurd left (lt_irrefl _)
  · intro one
    obtain ⟨only, one⟩ := List.length_eq_one_iff.mp one
    rw [one]
    exact List.pairwise_singleton _ _

theorem disjoint_iff :
    (∀ line ∈ byVisualLine (addedElements numberText generateId tb lineRuns),
        line.Pairwise Follows) ↔
      ∀ i text, (visualLines tb)[i]? = some text → OneKey numberText tb i text := by
  rw [byVisualLine_added, List.forall_mem_map]
  constructor
  · intro disjoint i text line
    by_cases nonempty : text = []
    · rw [OneKey, nonempty, List.length_nil, extract_empty]
      rintro _ ⟨⟩
    · have mem : (text, i) ∈ textLinesOf tb := (mem_textLinesOf tb).mpr ⟨line, nonempty⟩
      exact (addedLine_disjoint_iff nonempty i).mp (disjoint _ mem)
  · intro oneKey line mem
    obtain ⟨line, nonempty⟩ := (mem_textLinesOf tb).mp mem
    exact (addedLine_disjoint_iff nonempty _).mpr (oneKey _ _ line)

/-- Where every line is added as one run, the ids are those of the lines. -/
theorem ids_of_oneKey
    (oneKey : ∀ i text, (visualLines tb)[i]? = some text → OneKey numberText tb i text) :
    (addedElements numberText generateId tb lineRuns).map TextElement.elementId =
      (textLinesOf tb).map fun line =>
        lineId numberText tb generateId lineRuns line.2 line.1 := by
  rw [addedElements_eq, List.map_flatten, List.map_map]
  have single : ∀ line ∈ textLinesOf tb,
      (List.map TextElement.elementId ∘ fun line =>
        addedLine numberText generateId tb lineRuns line.2 line.1) line =
        [lineId numberText tb generateId lineRuns line.2 line.1] := by
    intro line mem
    obtain ⟨line', nonempty⟩ := (mem_textLinesOf tb).mp mem
    have one := (addedLine_length_one_iff numberText tb generateId lineRuns nonempty line.2).mpr
      (oneKey _ _ line')
    obtain ⟨first, later, added, named⟩ :=
      addedLine_head numberText tb generateId lineRuns nonempty line.2
    rw [added, List.length_cons, Nat.add_eq_right, List.length_eq_zero_iff] at one
    simp [added, one, named]
  rw [List.map_congr_left single, ← List.flatMap_def, List.map_eq_flatMap]

theorem sourceStyleByKey_eq_some {key id : String}
    (found : sourceStyleByKey numberText lineRuns key = some id) :
    ∃ run ∈ lineRuns.flatten, run.elementId = id ∧
      ∃ s ∈ run.style, runStyleKey numberText s = key := by
  obtain ⟨run, first, rfl⟩ := Option.map_eq_some_iff.mp found
  have styled := List.find?_some first
  obtain ⟨s, hs, key⟩ := (Option.any_eq_true _ _).mp styled
  exact ⟨run, List.mem_of_find?_eq_some first, rfl, s, hs, of_decide_eq_true key⟩

theorem exists_sourceStyleByKey {run : SessionLineRunSnapshot} (mem : run ∈ lineRuns.flatten)
    {s : RunStyle} (style : s ∈ run.style) :
    ∃ id, sourceStyleByKey numberText lineRuns (runStyleKey numberText s) = some id := by
  apply Option.isSome_iff_exists.mp
  rw [sourceStyleByKey, Option.isSome_map, List.find?_isSome]
  exact ⟨run, mem, (Option.any_eq_true _ _).mpr ⟨s, style, decide_eq_true rfl⟩⟩

theorem lineId_of_key {i : Nat} {text : List CodeUnit} {key id : String}
    (keyed : lineKey numberText tb i text = some key)
    (found : sourceStyleByKey numberText lineRuns key = some id) :
    lineId numberText tb generateId lineRuns i text = id := by
  rw [lineId, keyed, Option.bind_some, found, Option.getD_some]

/-- A line has the id of a source run with its key, or a new one. -/
theorem lineId_cases (i : Nat) (text : List CodeUnit) :
    (∃ run ∈ lineRuns.flatten,
        run.elementId = lineId numberText tb generateId lineRuns i text ∧
        ∃ s ∈ run.style, lineKey numberText tb i text = some (runStyleKey numberText s)) ∨
      lineId numberText tb generateId lineRuns i text = generateId i 0 := by
  rw [lineId]
  cases keyed : lineKey numberText tb i text with
  | none => exact .inr rfl
  | some key =>
    rw [Option.bind_some]
    cases found : sourceStyleByKey numberText lineRuns key with
    | none => exact .inr rfl
    | some id =>
      obtain ⟨run, mem, named, s, style, rfl⟩ := sourceStyleByKey_eq_some found
      exact .inl ⟨run, mem, named, s, style, rfl⟩

theorem lineIds_distinct (fresh : FreshIds generateId lineRuns)
    (plain : PlainReflow numberText tb lineRuns) :
    ((textLinesOf tb).map fun line =>
      lineId numberText tb generateId lineRuns line.2 line.1).Nodup := by
  rw [List.Nodup, List.pairwise_map]
  apply (textLinesOf_pairwise tb).imp_of_mem
  intro a b ha hb before same
  have lineA := ((mem_textLinesOf tb).mp ha).1
  have lineB := ((mem_textLinesOf tb).mp hb).1
  have known {run} (mem : run ∈ lineRuns.flatten) :
      run.elementId ∈ removedElementIds lineRuns := List.mem_map_of_mem mem
  rcases lineId_cases a.2 a.1 with ⟨run, mem, named, s, style, keyed⟩ | new
  · rcases lineId_cases b.2 b.1 with ⟨run', mem', named', s', style', keyed'⟩ | new'
    · have sameRun : run = run' :=
        List.inj_on_of_nodup_map plain.sources mem mem' (named.trans (same.trans named'.symm))
      subst sameRun
      have sameStyle : s = s' := Option.mem_unique style style'
      subst sameStyle
      have := plain.sourceKeys run mem s style _ _ _ _ lineA lineB keyed keyed'
      omega
    · apply fresh.new b.2 0
      rw [← new', ← same, ← named]
      exact known mem
  · rcases lineId_cases b.2 b.1 with ⟨run', mem', named', _⟩ | new'
    · apply fresh.new a.2 0
      rw [← new, same, ← named']
      exact known mem'
    · rw [new, new'] at same
      have := (fresh.distinct _ _ _ _ same).1
      omega

/-- The law of a reflow holds exactly where every line has one style, and no style of a source run
is on two lines. -/
theorem reflow_sound_iff {removed : List String} {added : List TextElement}
    (session : tb.data.lineRuns = some lineRuns)
    (commit : commitParagraphSession numberText generateId tb = .reflow removed added)
    (fresh : FreshIds generateId lineRuns) :
    ReflowSound lineRuns (visualLines tb) removed added ↔
      PlainReflow numberText tb lineRuns := by
  obtain ⟨rfl, rfl⟩ := commit_eq_reflow session commit
  constructor
  · intro sound
    have oneKey := disjoint_iff.mp sound.disjoint
    refine ⟨removed_once_iff.mp sound.removed, oneKey, ?_⟩
    intro run mem s style i text j text' line line' keyed keyed'
    have nonempty {i text} (keyed : lineKey numberText tb i text =
        some (runStyleKey numberText s)) : text ≠ [] := by
      rintro rfl
      rw [lineKey, List.length_nil, extract_empty] at keyed
      cases keyed
    have distinct := sound.distinct
    rw [ids_of_oneKey oneKey] at distinct
    obtain ⟨id, found⟩ := exists_sourceStyleByKey mem style
    have same : (text, i) = (text', j) := by
      apply List.inj_on_of_nodup_map distinct
      · exact (mem_textLinesOf tb).mpr ⟨line, nonempty keyed⟩
      · exact (mem_textLinesOf tb).mpr ⟨line', nonempty keyed'⟩
      · exact (lineId_of_key keyed found).trans (lineId_of_key keyed' found).symm
    exact congrArg Prod.snd same
  · intro plain
    constructor
    · exact removed_once_iff.mpr plain.sources
    · exact byVisualLine_contents numberText tb generateId lineRuns
    · rw [ids_of_oneKey plain.oneKey]
      exact lineIds_distinct fresh plain
    · exact disjoint_iff.mpr plain.oneKey

end

/-! ## A new line in a plain paragraph -/

theorem toList_numberedId (i c : Nat) : (numberedId i c).toList =
    "el_".toList ++ (Text.decimal i ++ '_' :: Text.decimal c) := by
  rw [← List.append_assoc]
  exact String.toList_ofList

theorem numberedId_inj {i c j d : Nat} (same : numberedId i c = numberedId j d) :
    i = j ∧ c = d := by
  have digits (n : Nat) : '_' ∉ Text.decimal n := Text.not_mem_decimal rfl n
  have lists := congrArg String.toList same
  rw [toList_numberedId, toList_numberedId, List.append_cancel_left_eq] at lists
  obtain ⟨first, second⟩ := Text.split_first lists (digits i) (digits j)
  exact ⟨Text.decimal_inj first, Text.decimal_inj second⟩

theorem numberedId_prefix (i c : Nat) : (numberedId i c).toList.head? = some 'e' := by
  rw [toList_numberedId]
  rfl

/-- What a session writes for each character of a run of the plain style. -/
def plainOverride : CharOverride :=
  ⟨some 10, some "#000000", some (.text "normal"), some "normal", some false, some false, none⟩

/-- Enter between `ab` and `c`. -/
def enteredBox : SessionTextbox :=
  { sessionBox "ab\nc" [[helveticaRun "r" "abc" 0 0]] with
    styles := some fun _ => some fun c => if c < 3 then some plainOverride else none }

theorem reflow_reuses_id :
    ∃ removed added,
      commitParagraphSession wholeNumberText numberedId enteredBox = .reflow removed added ∧
        added.map TextElement.elementId = ["r", "r"] ∧
        ¬ReflowSound [[helveticaRun "r" "abc" 0 0]] (visualLines enteredBox) removed added := by
  refine ⟨removedElementIds [[helveticaRun "r" "abc" 0 0]],
    addedElements wholeNumberText numberedId enteredBox [[helveticaRun "r" "abc" 0 0]],
    rfl, by decide +kernel, ?_⟩
  intro sound
  exact absurd sound.distinct (by decide +kernel)

theorem numberedId_fresh : FreshIds numberedId [[helveticaRun "r" "abc" 0 0]] := by
  refine ⟨fun _ _ _ _ => numberedId_inj, ?_⟩
  intro i c mem
  have known := List.mem_singleton.mp mem
  have := numberedId_prefix i c
  rw [known] at this
  cases this

def plainBox : SessionTextbox := sessionBox "ab\nc" [[helveticaRun "r" "abc" 0 0]]

theorem plainBox_styles (i n : Nat) : extractVisualLineCharStyles plainBox i n = none := by
  simp [extractVisualLineCharStyles, overridesOf, plainBox, sessionBox]

/-- Without overrides the two lines are two new runs. -/
theorem reflow_sound_plainBox :
    ReflowSound [[helveticaRun "r" "abc" 0 0]] (visualLines plainBox) ["r"]
      (addedElements wholeNumberText numberedId plainBox [[helveticaRun "r" "abc" 0 0]]) := by
  have commit : commitParagraphSession wholeNumberText numberedId plainBox =
      .reflow ["r"] (addedElements wholeNumberText numberedId plainBox
        [[helveticaRun "r" "abc" 0 0]]) := rfl
  have plain : PlainReflow wholeNumberText plainBox [[helveticaRun "r" "abc" 0 0]] := by
    refine ⟨by decide, ?_, ?_⟩
    · intro i text _ styles extracted
      rw [plainBox_styles] at extracted
      cases extracted
    · intro run _ s _ i text _ _ _ _ keyed
      rw [lineKey, plainBox_styles] at keyed
      cases keyed
  exact (reflow_sound_iff rfl commit numberedId_fresh).mpr plain

end GigaPdf.ParagraphSession
