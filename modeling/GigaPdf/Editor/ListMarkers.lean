import GigaPdf.Editor.TextRuns
import GigaPdf.Lib.Numerals
import GigaPdf.Lib.Text
import Mathlib.Algebra.Order.Floor.Ring
import Mathlib.Data.Rat.Floor

/-!
# List markers

`list-format.ts`, and what `render-elements.ts` and `fabric-element-io.ts` do with it. The marker of
a list paragraph is a decoration in front of the text that Fabric shows: it is composed in when the
element is drawn and stripped off when it is read back, with the styles of the first line shifted
along. Ordinals are finite numbers.
-/

namespace GigaPdf

open Numerals
open ParagraphSession (CodeUnit codeUnits newline)

inductive ListType
  | bullet | number | lettered | roman
deriving DecidableEq, Repr

structure TextListStyle where
  type : ListType
  level : Int
deriving DecidableEq, Repr

/-! ## The marker -/

/-- `x | 0` of an integer. -/
def int32 (x : Int) : Int := x.bmod (2 ^ 32)

def indentStepPt : ℚ := 18

def bulletGlyphs : List Char := ['•', '◦', '▪']

def markerSeparator : List Char := ['\t']

/-- The loop of `toLowerAlpha`, which puts the letters in front of each other. -/
def lettersOf (v : Nat) (out : List Char) : List Char :=
  if v = 0 then out else lettersOf ((v - 1) / 26) (Char.ofNat (97 + (v - 1) % 26) :: out)
termination_by v
decreasing_by
  have := Nat.div_le_self (v - 1) 26
  omega

def toLowerAlpha (n : Nat) : List Char :=
  match lettersOf n [] with
  | [] => ['a']
  | out => out

def romanTable : List (Entry Char) :=
  [⟨1000, ['m']⟩, ⟨900, ['c', 'm']⟩, ⟨500, ['d']⟩, ⟨400, ['c', 'd']⟩, ⟨100, ['c']⟩,
    ⟨90, ['x', 'c']⟩, ⟨50, ['l']⟩, ⟨40, ['x', 'l']⟩, ⟨10, ['x']⟩, ⟨9, ['i', 'x']⟩, ⟨5, ['v']⟩,
    ⟨4, ['i', 'v']⟩, ⟨1, ['i']⟩]

/-- `while (v >= value)` -/
def takeSigns (e : Entry Char) (v : Nat) (out : List Char) : Nat × List Char :=
  if 0 < e.amount ∧ e.amount ≤ v then takeSigns e (v - e.amount) (out ++ e.signs) else (v, out)
termination_by v
decreasing_by omega

def toLowerRoman (n : Nat) : List Char :=
  if n = 0 then ['i']
  else (romanTable.foldl (fun state e => takeSigns e state.1 state.2) (n, [])).2

/-- The ordinal that is shown; what is not positive counts as 1. -/
def shownOrdinal (ordinal : ℚ) : Nat := if 0 < ordinal then ⌊ordinal⌋.toNat else 1

def listMarkerGlyph (list : TextListStyle) (ordinal : ℚ) : List Char :=
  let n := shownOrdinal ordinal
  match list.type with
  | .bullet => [bulletGlyphs.getD ((max 0 (int32 list.level)).toNat % bulletGlyphs.length) '•']
  | .number => Text.decimal n ++ ['.']
  | .lettered => toLowerAlpha n ++ ['.']
  | .roman => toLowerRoman n ++ ['.']

def listMarkerPrefix (list : TextListStyle) (ordinal : ℚ) : List CodeUnit :=
  codeUnits (String.ofList (listMarkerGlyph list ordinal ++ markerSeparator))

def leftIndentOffset (indentLeft : Option ℚ) (list : Option TextListStyle) : ℚ :=
  let explicit := max 0 (indentLeft.getD 0)
  let listLevels : Int := match list with
    | none => 0
    | some list => max 0 (int32 list.level) + 1
  explicit + listLevels * indentStepPt

/-! ## What the markers say -/

theorem lettersOf_eq (v : Nat) (out : List Char) :
    lettersOf v out = ((digitsRev 26 v).map fun d => Char.ofNat (97 + d)).reverse ++ out := by
  induction v using Nat.strong_induction_on generalizing out with
  | _ v ih =>
    cases v with
    | zero => rw [lettersOf, if_pos rfl, digitsRev_zero]; rfl
    | succ v =>
      have smaller := Nat.div_le_self v 26
      rw [lettersOf, if_neg (Nat.succ_ne_zero v), Nat.add_sub_cancel, ih (v / 26) (by omega),
        digitsRev_succ, List.map_cons, List.reverse_cons, List.append_assoc]
      rfl

/-- The loop takes the signs of an entry as often as its amount fits. -/
theorem takeSigns_eq {e : Entry Char} (positive : 0 < e.amount) (v : Nat) (out : List Char) :
    takeSigns e v out =
      (v % e.amount, out ++ (List.replicate (v / e.amount) e.signs).flatten) := by
  induction v using Nat.strong_induction_on generalizing out with
  | _ v ih =>
    rw [takeSigns]
    by_cases fits : e.amount ≤ v
    · rw [if_pos ⟨positive, fits⟩, ih (v - e.amount) (by omega), ← Nat.mod_eq_sub_mod fits,
        Nat.div_eq_sub_div positive fits, List.replicate_succ, List.flatten_cons, List.append_assoc]
    · rw [if_neg fun both => fits both.2, Nat.div_eq_of_lt (by omega), Nat.mod_eq_of_lt (by omega)]
      simp

theorem foldl_takeSigns {table : List (Entry Char)} (positive : ∀ e ∈ table, 0 < e.amount) (v : Nat)
    (out : List Char) :
    table.foldl (fun state e => takeSigns e state.1 state.2) (v, out) =
      (left table v, out ++ word table v) := by
  induction table generalizing v out with
  | nil => simp [left, word]
  | cons e table ih =>
    rw [List.foldl_cons, takeSigns_eq (positive e List.mem_cons_self),
      ih fun f hf => positive f (List.mem_cons_of_mem e hf)]
    rw [left, word, List.append_assoc]

/-- What a roman sign counts. -/
def romanSign : Char → Nat
  | 'm' => 1000
  | 'd' => 500
  | 'c' => 100
  | 'l' => 50
  | 'x' => 10
  | 'v' => 5
  | 'i' => 1
  | _ => 0

theorem left_of_mod_one {table : List (Entry Char)} {e : Entry Char} (one : e.amount = 1)
    (n : Nat) : left (table ++ [e]) n = 0 := by
  induction table generalizing n with
  | nil => rw [List.nil_append, left, left, one, Nat.mod_one]
  | cons f table ih => rw [List.cons_append, left, ih]

instance (e f : Entry Char) : Decidable (Falls romanSign e f) :=
  decidable_of_iff
    (e.signs.getLast?.all fun a => f.signs.head?.all fun b => romanSign b ≤ romanSign a)
    (by simp [Falls, Option.all_eq_true])

theorem romanTable_proper : Proper romanSign romanTable where
  nonempty := by decide
  amount := by decide
  again := by decide
  falls := by decide

theorem read_toLowerRoman {n : Nat} (positive : 0 < n) : read romanSign (toLowerRoman n) = n := by
  have reads := read_word romanTable_proper n
  have none : left romanTable n = 0 :=
    show left (romanTable.dropLast ++ [⟨1, ['i']⟩]) n = 0 from left_of_mod_one rfl n
  rw [toLowerRoman, if_neg (by omega), foldl_takeSigns (by decide)]
  change read romanSign (word romanTable n) = n
  omega

/-- The letters of a lettered marker, and the digits they stand for. -/
def letters (digits : List Nat) : List Char := digits.map fun d => Char.ofNat (97 + d)

theorem letter_inj {d e : Nat} (hd : d < 26) (he : e < 26)
    (same : Char.ofNat (97 + d) = Char.ofNat (97 + e)) : d = e := by
  have all : ∀ d e : Fin 26, Char.ofNat (97 + d) = Char.ofNat (97 + e) → d = e := by decide +kernel
  exact Fin.mk.inj_iff.mp (all ⟨d, hd⟩ ⟨e, he⟩ same)

theorem letters_inj {digits digits' : List Nat} (below : ∀ d ∈ digits, d < 26)
    (below' : ∀ d ∈ digits', d < 26) (same : letters digits = letters digits') :
    digits = digits' := by
  induction digits generalizing digits' with
  | nil => exact (List.map_eq_nil_iff.mp same.symm).symm
  | cons d digits ih =>
    cases digits' with
    | nil => cases same
    | cons e digits' =>
      rw [letters, letters, List.map_cons, List.map_cons, List.cons.injEq] at same
      rw [letter_inj (below d List.mem_cons_self) (below' e List.mem_cons_self) same.1,
        ih (fun x hx => below x (List.mem_cons_of_mem _ hx))
          (fun x hx => below' x (List.mem_cons_of_mem _ hx)) same.2]

theorem toLowerAlpha_eq {n : Nat} (positive : 0 < n) :
    toLowerAlpha n = (letters (digitsRev 26 n)).reverse := by
  obtain ⟨n, rfl⟩ := Nat.exists_eq_add_of_lt positive
  rw [toLowerAlpha, lettersOf_eq, List.append_nil]
  cases shown : (letters (digitsRev 26 (0 + n + 1))).reverse with
  | nil =>
    rw [List.reverse_eq_nil_iff, letters, List.map_eq_nil_iff, digitsRev_succ] at shown
    cases shown
  | cons c out =>
    rw [letters] at shown
    rw [shown]

theorem toLowerAlpha_inj {n m : Nat} (hn : 0 < n) (hm : 0 < m)
    (same : toLowerAlpha n = toLowerAlpha m) : n = m := by
  rw [toLowerAlpha_eq hn, toLowerAlpha_eq hm, List.reverse_inj] at same
  have digits := letters_inj (digitsRev_lt (by decide) n) (digitsRev_lt (by decide) m) same
  rw [← valueRev_digitsRev 26 n, digits, valueRev_digitsRev]

theorem toLowerRoman_inj {n m : Nat} (hn : 0 < n) (hm : 0 < m)
    (same : toLowerRoman n = toLowerRoman m) : n = m := by
  have value := read_toLowerRoman hn
  rw [same, read_toLowerRoman hm] at value
  exact (Int.ofNat_inj.mp value).symm

theorem isLower_digit {c : Char} (low : 'a' ≤ c) (high : c ≤ 'z') :
    ∃ d < 26, Char.ofNat (97 + d) = c := by
  have hl : 97 ≤ c.toNat := low
  have hh : c.toNat ≤ 122 := high
  refine ⟨c.toNat - 97, by omega, ?_⟩
  rw [Nat.add_sub_cancel' hl, Char.ofNat_toNat]

/-- **The lettered markers are all the words**: each non-empty word of the letters from a to z is
that of just one ordinal. -/
theorem lettered_words {word : List Char} (nonempty : word ≠ [])
    (lower : ∀ c ∈ word, 'a' ≤ c ∧ c ≤ 'z') : ∃! n, 0 < n ∧ toLowerAlpha n = word := by
  have digits : ∀ word : List Char, (∀ c ∈ word, 'a' ≤ c ∧ c ≤ 'z') →
      ∃ digits, (∀ d ∈ digits, d < 26) ∧ letters digits = word := by
    intro word lower
    induction word with
    | nil => exact ⟨[], by simp, rfl⟩
    | cons c word ih =>
      obtain ⟨digits, below, rest⟩ := ih fun c hc => lower c (List.mem_cons_of_mem _ hc)
      obtain ⟨d, hd, here⟩ := isLower_digit (lower c List.mem_cons_self).1
        (lower c List.mem_cons_self).2
      exact ⟨d :: digits, List.forall_mem_cons.mpr ⟨hd, below⟩, congrArg₂ List.cons here rest⟩
  obtain ⟨digits, below, shown⟩ := digits word.reverse fun c hc => lower c (List.mem_reverse.mp hc)
  have positive : 0 < valueRev 26 digits := by
    cases digits with
    | nil => exact absurd (List.reverse_eq_nil_iff.mp shown.symm) nonempty
    | cons d digits => rw [valueRev]; omega
  have here : toLowerAlpha (valueRev 26 digits) = word := by
    rw [toLowerAlpha_eq positive, digitsRev_valueRev below, shown, List.reverse_reverse]
  refine ⟨valueRev 26 digits, ⟨positive, here⟩, ?_⟩
  rintro m ⟨hm, other⟩
  exact toLowerAlpha_inj hm positive (other.trans here.symm)

theorem one_le_shownOrdinal {ordinal : ℚ} (first : 1 ≤ ordinal) : 0 < shownOrdinal ordinal := by
  have floor : 1 ≤ ⌊ordinal⌋ := Int.le_floor.mpr (by exact_mod_cast first)
  rw [shownOrdinal, if_pos (by linarith)]
  omega

theorem shownOrdinal_eq_iff {p q : ℚ} (hp : 1 ≤ p) (hq : 1 ≤ q) :
    shownOrdinal p = shownOrdinal q ↔ ⌊p⌋ = ⌊q⌋ := by
  have hp' : 1 ≤ ⌊p⌋ := Int.le_floor.mpr (by exact_mod_cast hp)
  have hq' : 1 ≤ ⌊q⌋ := Int.le_floor.mpr (by exact_mod_cast hq)
  rw [shownOrdinal, shownOrdinal, if_pos (by linarith), if_pos (by linarith)]
  omega

/-- **An ordered marker tells its ordinal**: in a list of numbers, letters or roman numerals two
items have one marker just when they are counted alike, whatever their levels. -/
theorem listMarkerGlyph_eq_iff {type : ListType} (ordered : type ≠ .bullet) {level level' : Int}
    {p q : ℚ} (hp : 1 ≤ p) (hq : 1 ≤ q) :
    listMarkerGlyph ⟨type, level⟩ p = listMarkerGlyph ⟨type, level'⟩ q ↔ ⌊p⌋ = ⌊q⌋ := by
  rw [← shownOrdinal_eq_iff hp hq]
  have hn := one_le_shownOrdinal hp
  have hm := one_le_shownOrdinal hq
  constructor
  · intro same
    cases type with
    | bullet => exact absurd rfl ordered
    | number => exact Text.decimal_inj (List.append_cancel_right same)
    | lettered => exact toLowerAlpha_inj hn hm (List.append_cancel_right same)
    | roman => exact toLowerRoman_inj hn hm (List.append_cancel_right same)
  · intro same
    cases type with
    | bullet => exact absurd rfl ordered
    | number | lettered | roman => simp only [listMarkerGlyph, same]

theorem listMarkerGlyph_eq_iff_roman :
    listMarkerGlyph ⟨.roman, 0⟩ (3999 / 2) = listMarkerGlyph ⟨.roman, 7⟩ 1999 ↔
      ⌊(3999 / 2 : ℚ)⌋ = ⌊(1999 : ℚ)⌋ :=
  listMarkerGlyph_eq_iff (by decide) (by norm_num) (by norm_num)

/-! ## The text that is shown -/

def composeDisplayText (content : List CodeUnit) (list : Option TextListStyle) (ordinal : ℚ) :
    List CodeUnit × Nat :=
  match list with
  | none => (content, 0)
  | some list =>
    let marker := listMarkerPrefix list ordinal
    (marker ++ content, marker.length)

def stripDisplayText (display : List CodeUnit) (list : Option TextListStyle) (ordinal : ℚ) :
    List CodeUnit × Nat :=
  match list with
  | none => (display, 0)
  | some list =>
    let marker := listMarkerPrefix list ordinal
    if marker <+: display then (display.drop marker.length, marker.length) else (display, 0)

theorem stripDisplayText_composeDisplayText (content : List CodeUnit) (list : Option TextListStyle)
    (ordinal : ℚ) :
    stripDisplayText (composeDisplayText content list ordinal).1 list ordinal =
      (content, (composeDisplayText content list ordinal).2) := by
  cases list with
  | none => rfl
  | some list =>
    rw [composeDisplayText, stripDisplayText, if_pos (List.prefix_append _ _), List.drop_left]

/-! ## The styles that are shown -/

/-- `Object.entries` of the styles of a line. -/
abbrev LineEntries := List (Nat × FabricCharStyle)

/-- `Object.entries` of a map. -/
abbrev StylesEntries := List (Nat × LineEntries)

/-- The entries of a map that has none outside the lines. -/
def entriesOfMap (lens : List Nat) (map : FabricStylesMap) : StylesEntries :=
  (List.range lens.length).filterMap fun line =>
    (map line).map fun lineMap =>
      (line, (List.range (lens.getD line 0)).filterMap fun k =>
        (lineMap k).map fun style => (k, style))

def mapOfEntries (styles : StylesEntries) : FabricStylesMap := fun line =>
  (styles.lookup line).map fun entries k => entries.lookup k

def shiftStylesForMarker (styles : StylesEntries) (prefixLen : Nat) : StylesEntries :=
  if prefixLen = 0 then styles
  else styles.map fun (line, lineMap) =>
    (line, lineMap.map fun (char, style) => (if line = 0 then char + prefixLen else char, style))

def unshiftStylesForMarker (styles : StylesEntries) (prefixLen : Nat) : StylesEntries :=
  if prefixLen = 0 then styles
  else styles.filterMap fun (line, lineMap) =>
    let shifted := lineMap.filterMap fun (char, style) =>
      if line = 0 then if char < prefixLen then none else some (char - prefixLen, style)
      else some (char, style)
    if shifted = [] then none else some (line, shifted)

theorem lookup_filterMap_range {α : Type} (f : Nat → Option α) (n j : Nat) :
    ((List.range n).filterMap fun i => (f i).map fun a => (i, a)).lookup j =
      if j < n then f j else none := by
  induction n with
  | zero => rfl
  | succ n ih =>
    rw [List.range_succ, List.filterMap_append, List.lookup_append, ih]
    by_cases here : j = n
    · subst here
      rw [if_neg (lt_irrefl j), if_pos (Nat.lt_succ_self j), Option.none_or]
      cases found : f j with
      | none => simp [found]
      | some a => simp [found]
    · have other : (List.filterMap (fun i => (f i).map fun a => (i, a)) [n]).lookup j = none := by
        cases found : f n with
        | none => simp [found]
        | some a => simp [found, here]
      have bound : j < n + 1 ↔ j < n := by omega
      simp only [other, Option.or_none, bound]

theorem StandsAt.within {lens : List Nat} {line flat line' k p : Nat}
    (stands : StandsAt lens line flat line' k p) :
    line' - line < lens.length ∧ k < lens.getD (line' - line) 0 := by
  induction stands with
  | here inside => simpa using inside
  | @later len lens line flat line' k p stands ih =>
    have index : line' - line = line' - (line + 1) + 1 := by
      have ahead := stands.bounds
      omega
    rw [index, List.length_cons, List.getD_cons_succ]
    exact ⟨Nat.succ_lt_succ ih.1, ih.2⟩

/-- Lines that have no style can be left out of the entries. -/
theorem charAt_entriesOfMap {kept : LineEntries → Bool}
    (full : ∀ entries, entries ≠ [] → kept entries) {lens : List Nat} {line k p : Nat}
    (stands : StandsAt lens 0 0 line k p) (map : FabricStylesMap) :
    charAt (mapOfEntries ((entriesOfMap lens map).filter (kept ·.2))) line k =
      charAt map line k := by
  obtain ⟨inLines, inLine⟩ := stands.within
  rw [Nat.sub_zero] at inLines inLine
  have entries : ∀ i, (((map i).map fun lineMap =>
        (i, (List.range (lens.getD i 0)).filterMap fun k =>
          (lineMap k).map fun style => (k, style))).filter (kept ·.2)) =
      (((map i).map fun lineMap => (List.range (lens.getD i 0)).filterMap fun k =>
        (lineMap k).map fun style => (k, style)).filter kept).map fun entries => (i, entries) := by
    intro i
    cases map i with
    | none => rfl
    | some lineMap => simp only [Option.map_some, Option.filter_some]; split <;> rfl
  rw [entriesOfMap, List.filter_filterMap]
  simp only [entries]
  rw [charAt, mapOfEntries, lookup_filterMap_range, if_pos inLines, charAt]
  cases map line with
  | none => rfl
  | some lineMap =>
    have found := lookup_filterMap_range lineMap (lens.getD line 0) k
    rw [if_pos inLine] at found
    rw [Option.map_some, Option.bind_some, Option.filter_some]
    split
    · exact found
    · rename_i dropped
      have empty := not_imp_comm.mp (full _) dropped
      rw [empty] at found
      exact found

theorem unshift_shift (styles : StylesEntries) (prefixLen : Nat) :
    unshiftStylesForMarker (shiftStylesForMarker styles prefixLen) prefixLen =
      if prefixLen = 0 then styles else styles.filter (·.2 ≠ []) := by
  rw [unshiftStylesForMarker, shiftStylesForMarker]
  split
  · rfl
  · rw [List.filterMap_map, ← List.filterMap_eq_filter]
    apply List.filterMap_congr
    rintro ⟨line, lineMap⟩ -
    have back : (lineMap.map fun (char, style) =>
        (if line = 0 then char + prefixLen else char, style)).filterMap (fun (char, style) =>
          if line = 0 then if char < prefixLen then none else some (char - prefixLen, style)
          else some (char, style)) = lineMap := by
      rw [List.filterMap_map]
      apply Eq.trans (List.filterMap_congr _) List.filterMap_some
      rintro ⟨char, style⟩ -
      by_cases first : line = 0 <;> simp [first]
    simp only [Function.comp_apply, back, Option.guard]
    by_cases empty : lineMap = [] <;> simp [empty]

/-! ## Rendering and reading back -/

/-- What a text element says about its paragraph. -/
structure ListParagraph where
  content : List CodeUnit
  runs : Option (List TextStyleRun)
  x : ℚ
  list : Option TextListStyle
  indentLeft : Option ℚ

/-- What the object on the canvas keeps of it. -/
structure TextObject where
  text : List CodeUnit
  styles : StylesEntries
  left : ℚ
  listStyle : Option TextListStyle
  indentLeft : ℚ

/-- The renderer, which draws every paragraph as the first of its list. -/
def ListParagraph.render (p : ListParagraph) : TextObject :=
  let display := composeDisplayText p.content p.list 1
  let styles := entriesOfMap (lineLengths p.content) (runsToFabricStyles p.content p.runs)
  { text := display.1
    styles := shiftStylesForMarker styles display.2
    left := p.x + leftIndentOffset p.indentLeft p.list
    listStyle := p.list
    indentLeft := p.indentLeft.getD 0 }

/-- The serialiser. -/
def TextObject.serialise (o : TextObject) : ListParagraph :=
  let clean := stripDisplayText o.text o.listStyle 1
  let styles := unshiftStylesForMarker o.styles clean.2
  { content := clean.1
    runs := fabricStylesToRuns clean.1 (some (mapOfEntries styles))
    x := o.left - leftIndentOffset (some o.indentLeft) o.listStyle
    list := o.listStyle
    indentLeft := if 0 < o.indentLeft then some o.indentLeft else none }

/-- The runs that are read depend on the styles of the characters alone. -/
theorem fabricStylesToRuns_eq_roundTrip {content : List CodeUnit}
    {runs : Option (List TextStyleRun)} {styles : FabricStylesMap}
    (same : ∀ line k p, StandsAt (lineLengths content) 0 0 line k p →
      charAt styles line k = charAt (runsToFabricStyles content runs) line k) :
    fabricStylesToRuns content (some styles) = roundTrip content runs := by
  have drawn : ∀ line k p, StandsAt (lineLengths content) 0 0 line k p →
      styleAt (runsToFabricStyles content runs) line k = eff (runs.getD []) p :=
    fun line k p stands => styleAt_runsToFabricStyles stands runs
  have flat : flatStyles styles (lineLengths content) 0 0 =
      flatStyles (runsToFabricStyles content runs) (lineLengths content) 0 0 := by
    rw [flatStyles_eq drawn]
    apply flatStyles_eq
    intro line k p stands
    rw [styleAt, same line k p stands, ← styleAt, drawn line k p stands]
  rw [roundTrip, fabricStylesToRuns, fabricStylesToRuns, Option.bind_some, Option.bind_some, flat]

theorem leftIndentOffset_getD (indentLeft : Option ℚ) (list : Option TextListStyle) :
    leftIndentOffset (some (indentLeft.getD 0)) list = leftIndentOffset indentLeft list := rfl

end GigaPdf
