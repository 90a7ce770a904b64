import GigaPdf.Editor.ParagraphSession
import GigaPdf.Lib.Spans
import Mathlib.Data.List.Sort

/-!
# Style runs

`text-runs.ts` converts the style runs of a text, which are flat ranges of its code units, to the
map of Fabric, from lines to characters to styles, and back. A newline has an index of the text and
no place in the map.
-/

namespace GigaPdf

open Spans
open ParagraphSession (CodeUnit newline Weight)

/-! ## Styles -/

/-- The fields of a style that one character may have. -/
structure CharStyle where
  fontWeight : Option FontWeight
  fontStyle : Option FontStyle
  underline : Option Bool
  strikethrough : Option Bool
  color : Option String
  fontSize : Option ℚ
  fontFamily : Option String
deriving DecidableEq

structure FabricCharStyle where
  fontWeight : Option Weight
  fontStyle : Option String
  underline : Option Bool
  linethrough : Option Bool
  fill : Option String
  fontSize : Option ℚ
  fontFamily : Option String

namespace CharStyle

/-- No field is there. -/
def empty : CharStyle := ⟨none, none, none, none, none, none, none⟩

/-- `{ ...a, ...b }` -/
def spread (a b : CharStyle) : CharStyle where
  fontWeight := b.fontWeight.or a.fontWeight
  fontStyle := b.fontStyle.or a.fontStyle
  underline := b.underline.or a.underline
  strikethrough := b.strikethrough.or a.strikethrough
  color := b.color.or a.color
  fontSize := b.fontSize.or a.fontSize
  fontFamily := b.fontFamily.or a.fontFamily

@[simp]
theorem spread_empty (a : CharStyle) : a.spread empty = a := rfl

@[simp]
theorem empty_spread (a : CharStyle) : empty.spread a = a := by
  simp [spread, empty]

@[simp]
theorem spread_self (a : CharStyle) : a.spread a = a := by
  simp [spread]

end CharStyle

def hasCharStyle (style : CharStyle) : Bool :=
  style.fontWeight.isSome || style.fontStyle.isSome || style.underline.isSome ||
    style.strikethrough.isSome || style.color.isSome || style.fontSize.isSome ||
    style.fontFamily.isSome

theorem hasCharStyle_eq_false {style : CharStyle} :
    hasCharStyle style = false ↔ style = CharStyle.empty := by
  obtain ⟨w, s, u, t, c, z, f⟩ := style
  simp [hasCharStyle, CharStyle.empty, and_assoc]

/-- `{ ...a, ...b }` -/
def FabricCharStyle.spread (a b : FabricCharStyle) : FabricCharStyle where
  fontWeight := b.fontWeight.or a.fontWeight
  fontStyle := b.fontStyle.or a.fontStyle
  underline := b.underline.or a.underline
  linethrough := b.linethrough.or a.linethrough
  fill := b.fill.or a.fill
  fontSize := b.fontSize.or a.fontSize
  fontFamily := b.fontFamily.or a.fontFamily

def FabricCharStyle.empty : FabricCharStyle := ⟨none, none, none, none, none, none, none⟩

def weightText : FontWeight → String
  | .normal => "normal"
  | .bold => "bold"

def slantText : FontStyle → String
  | .normal => "normal"
  | .italic => "italic"

def modelStyleToFabricChar (style : CharStyle) : FabricCharStyle where
  fontWeight := style.fontWeight.map fun w => .text (weightText w)
  fontStyle := style.fontStyle.map slantText
  underline := style.underline
  linethrough := style.strikethrough
  fill := style.color
  fontSize := style.fontSize
  fontFamily := style.fontFamily

/-- Numbers from 600 on are bold, also where they are texts of digits alone. -/
def isBold : Weight → Bool
  | .number n => 600 ≤ n
  | .text w =>
    w = "bold" || w = "bolder" ||
      (w.toList ≠ [] && w.toList.all Char.isDigit && 600 ≤ Nat.ofDigitChars 10 w.toList 0)

def fabricCharToModelStyle (style : FabricCharStyle) : CharStyle where
  fontWeight := style.fontWeight.map fun w => if isBold w then .bold else .normal
  fontStyle := style.fontStyle.map fun s => if s = "italic" then .italic else .normal
  underline := style.underline
  strikethrough := style.linethrough
  color := style.fill
  fontSize := style.fontSize
  fontFamily := style.fontFamily

theorem model_fabric_model (style : CharStyle) :
    fabricCharToModelStyle (modelStyleToFabricChar style) = style := by
  obtain ⟨w, s, u, t, c, z, f⟩ := style
  have weights : ∀ w, (if isBold (.text (weightText w)) then FontWeight.bold else .normal) = w := by
    intro w
    cases w <;> decide
  have slants : ∀ s, (if slantText s = "italic" then FontStyle.italic else .normal) = s := by
    intro s
    cases s <;> decide
  simp only [fabricCharToModelStyle, modelStyleToFabricChar, Option.map_map]
  congr 1
  · cases w with
    | none => rfl
    | some w => exact congrArg some (weights w)
  · cases s with
    | none => rfl
    | some s => exact congrArg some (slants s)

theorem fabric_spread (a b : FabricCharStyle) :
    fabricCharToModelStyle (a.spread b) =
      (fabricCharToModelStyle a).spread (fabricCharToModelStyle b) := by
  simp only [fabricCharToModelStyle, FabricCharStyle.spread, CharStyle.spread, Option.map_or]

inductive KeyPart
  | null
  | text (s : String)
  | flag (b : Bool)
  | number (n : ℚ)
deriving DecidableEq

/-- The array of which `JSON.stringify` makes the key: different arrays have different texts. -/
def charStyleKey (style : CharStyle) : List KeyPart :=
  [(style.fontWeight.map fun w => .text (weightText w)).getD .null,
    (style.fontStyle.map fun s => .text (slantText s)).getD .null,
    (style.underline.map .flag).getD .null,
    (style.strikethrough.map .flag).getD .null,
    (style.color.map .text).getD .null,
    (style.fontSize.map .number).getD .null,
    (style.fontFamily.map .text).getD .null]

theorem getD_null_inj {α : Type} {part : α → KeyPart} (inj : ∀ a b, part a = part b → a = b)
    (proper : ∀ a, part a ≠ .null) {a b : Option α}
    (same : (a.map part).getD .null = (b.map part).getD .null) : a = b := by
  cases a with
  | none =>
    cases b with
    | none => rfl
    | some b => exact absurd same.symm (proper b)
  | some a =>
    cases b with
    | none => exact absurd same (proper a)
    | some b => rw [inj a b same]

theorem charStyleKey_inj {a b : CharStyle} : charStyleKey a = charStyleKey b ↔ a = b := by
  constructor
  · intro same
    simp only [charStyleKey, List.cons.injEq, and_true] at same
    obtain ⟨w, s, u, t, c, z, f⟩ := same
    have weights := getD_null_inj (by intro a b; cases a <;> cases b <;> decide) (by simp) w
    have slants := getD_null_inj (by intro a b; cases a <;> cases b <;> decide) (by simp) s
    have underlines := getD_null_inj (by simp) (by simp) u
    have strikes := getD_null_inj (by simp) (by simp) t
    have colors := getD_null_inj (by simp) (by simp) c
    have sizes := getD_null_inj (by simp) (by simp) z
    have families := getD_null_inj (by simp) (by simp) f
    obtain ⟨w, s, u, t, c, z, f⟩ := a
    obtain ⟨w', s', u', t', c', z', f'⟩ := b
    simp only at weights slants underlines strikes colors sizes families
    subst weights slants underlines strikes colors sizes families
    rfl
  · intro same
    rw [same]

/-! ## From the runs to the map -/

/-- The `value` is the style. -/
abbrev TextStyleRun := Span CharStyle

abbrev LineMap := Nat → Option FabricCharStyle

/-- A record from lines to records from characters to styles. -/
abbrev FabricStylesMap := Nat → Option LineMap

def lineLengths (content : List CodeUnit) : List Nat :=
  (content.splitOn newline).map List.length

def setChar (lineMap : LineMap) (k : Nat) (style : FabricCharStyle) : LineMap := fun k' =>
  if k' = k then some style else lineMap k'

/-- `lineMap[i - lineStart] = { ...lineMap[i - lineStart], ...fabricStyle }` -/
def styleChar (lineStart : Nat) (fabricStyle : FabricCharStyle) (lineMap : LineMap) (i : Nat) :
    LineMap :=
  setChar lineMap (i - lineStart)
    (((lineMap (i - lineStart)).getD FabricCharStyle.empty).spread fabricStyle)

/-- The line of the map after the loop from `start` to `stop`. -/
def styleLine (map : FabricStylesMap) (line lineStart start stop : Nat)
    (fabricStyle : FabricCharStyle) : FabricStylesMap :=
  let lineMap := (map line).getD fun _ => none
  let styled := (List.range' start (stop - start)).foldl (styleChar lineStart fabricStyle) lineMap
  fun line' => if line' = line then some styled else map line'

/-- The walk over the lines, which ends behind the range. -/
def scatter (start stop : Nat) (fabricStyle : FabricCharStyle) :
    List Nat → Nat → Nat → FabricStylesMap → FabricStylesMap
  | [], _, _, map => map
  | len :: lens, line, flat, map =>
    let first := max start flat
    let last := min stop (flat + len)
    let styled :=
      if first < last then styleLine map line flat first last fabricStyle else map
    if stop < flat + len + 1 then styled
    else scatter start stop fabricStyle lens (line + 1) (flat + len + 1) styled

/-- `Math.max(0, run.start)` is the number itself or 0. -/
def applyRun (lens : List Nat) (map : FabricStylesMap) (run : TextStyleRun) : FabricStylesMap :=
  if hasCharStyle run.value then
    let start := run.start.toNat
    let stop := max start run.stop.toNat
    scatter start stop (modelStyleToFabricChar run.value) lens 0 0 map
  else map

def runsToFabricStyles (content : List CodeUnit) (runs : Option (List TextStyleRun)) :
    FabricStylesMap :=
  match runs with
  | none => fun _ => none
  | some runs => runs.foldl (applyRun (lineLengths content)) fun _ => none

/-! ## From the map to the runs -/

/-- The styles of a line by their flat indices, in the order of the characters. -/
def lineStyles (len flat : Nat) (lineMap : LineMap) : List (Int × CharStyle) :=
  (List.range len).filterMap fun charIndex =>
    (lineMap charIndex).bind fun fabricStyle =>
      let modelStyle := fabricCharToModelStyle fabricStyle
      if hasCharStyle modelStyle then some (((flat + charIndex : Nat) : Int), modelStyle) else none

def flatStyles (styles : FabricStylesMap) : List Nat → Nat → Nat → List (Int × CharStyle)
  | [], _, _ => []
  | len :: lens, line, flat =>
    (match styles line with
      | none => []
      | some lineMap => lineStyles len flat lineMap) ++
      flatStyles styles lens (line + 1) (flat + len + 1)

/-- The runs that are closed, and the open one. -/
structure OpenRun where
  runs : List TextStyleRun
  runStart : Int
  prevIndex : Int
  prevKey : List KeyPart
  prevStyle : CharStyle

def OpenRun.close (s : OpenRun) : List TextStyleRun :=
  s.runs ++ [⟨s.runStart, s.prevIndex + 1, s.prevStyle⟩]

def OpenRun.next (s : OpenRun) (entry : Int × CharStyle) : OpenRun :=
  let key := charStyleKey entry.2
  if entry.1 = s.prevIndex + 1 ∧ key = s.prevKey then { s with prevIndex := entry.1 }
  else ⟨s.close, entry.1, entry.1, key, entry.2⟩

def fabricStylesToRuns (content : List CodeUnit) (styles : Option FabricStylesMap) :
    Option (List TextStyleRun) :=
  styles.bind fun styles =>
    match (flatStyles styles (lineLengths content) 0 0).insertionSort fun a b => a.1 ≤ b.1 with
    | [] => none
    | entry :: rest =>
      some (rest.foldl OpenRun.next
        ⟨[], entry.1, entry.1, charStyleKey entry.2, entry.2⟩).close

/-- The runs that come back. -/
def roundTrip (content : List CodeUnit) (runs : Option (List TextStyleRun)) :
    Option (List TextStyleRun) :=
  fabricStylesToRuns content (some (runsToFabricStyles content runs))

/-! ## Where the characters are -/

/-- The character `k` of a line has the index `p`: the lines from `line` on, of which the first
begins at `flat`. -/
inductive StandsAt : List Nat → Nat → Nat → Nat → Nat → Nat → Prop
  | here {len lens line flat k} : k < len → StandsAt (len :: lens) line flat line k (flat + k)
  | later {len lens line flat line' k p} : StandsAt lens (line + 1) (flat + len + 1) line' k p →
    StandsAt (len :: lens) line flat line' k p

theorem StandsAt.bounds {lens : List Nat} {line flat line' k p : Nat}
    (stands : StandsAt lens line flat line' k p) : line ≤ line' ∧ flat ≤ p := by
  induction stands with
  | here inside => omega
  | later _ ih => omega

/-- The indices of the characters, line by line. -/
def unitsFrom : List Nat → Nat → List Nat
  | [], _ => []
  | len :: lens, flat =>
    (List.range len).map (flat + ·) ++ unitsFrom lens (flat + len + 1)

/-- There is a code unit at the index, and it is no newline. -/
def IsUnit (content : List CodeUnit) (i : Nat) : Prop := ∃ c, content[i]? = some c ∧ c ≠ newline

theorem unitsFrom_succ (len : Nat) (lens : List Nat) (flat : Nat) :
    unitsFrom ((len + 1) :: lens) flat = flat :: unitsFrom (len :: lens) (flat + 1) := by
  have shift : (List.range len).map (fun k => flat + (k + 1)) =
      (List.range len).map fun k => flat + 1 + k := by
    apply List.map_congr_left
    intro k _
    omega
  have behind : flat + (len + 1) + 1 = flat + 1 + len + 1 := by omega
  rw [unitsFrom, unitsFrom, List.range_succ_eq_map, List.map_cons, List.map_map, Nat.add_zero,
    List.cons_append, behind]
  simp only [Function.comp_def, Nat.succ_eq_add_one, shift]

theorem mem_unitsFrom {content : List CodeUnit} {flat p : Nat} :
    p ∈ unitsFrom (lineLengths content) flat ↔ flat ≤ p ∧ IsUnit content (p - flat) := by
  induction content generalizing flat with
  | nil => simp [lineLengths, unitsFrom, IsUnit]
  | cons c content ih =>
    rw [lineLengths, List.splitOn_cons_eq_if_modifyHead]
    obtain ⟨line, lines, split⟩ := List.exists_cons_of_ne_nil (List.splitOn_ne_nil newline content)
    have later : (flat + 1 ≤ p ∧ IsUnit content (p - (flat + 1))) ↔
        flat + 1 ≤ p ∧ IsUnit (c :: content) (p - flat) := by
      apply and_congr_right
      intro behind
      have index : p - flat = p - (flat + 1) + 1 := by omega
      rw [index]
      rfl
    by_cases here : c = newline
    · rw [if_pos (by simpa using here), List.map_cons, List.length_nil, ← lineLengths, unitsFrom,
        List.range_zero, List.map_nil, List.nil_append, Nat.add_zero, ih, later]
      constructor
      · rintro ⟨low, unit⟩
        exact ⟨by omega, unit⟩
      · rintro ⟨low, unit⟩
        refine ⟨?_, unit⟩
        by_contra first
        obtain rfl : p = flat := by omega
        obtain ⟨d, found, other⟩ := unit
        rw [Nat.sub_self, List.getElem?_cons_zero, Option.some.injEq] at found
        exact other (found ▸ here)
    · rw [if_neg (by simpa using here), split, List.modifyHead_cons, List.map_cons,
        List.length_cons, unitsFrom_succ, List.mem_cons]
      rw [lineLengths, split, List.map_cons] at ih
      rw [ih, later]
      constructor
      · rintro (rfl | ⟨low, unit⟩)
        · exact ⟨le_rfl, c, by simp, here⟩
        · exact ⟨by omega, unit⟩
      · rintro ⟨low, unit⟩
        by_cases first : p = flat
        · exact .inl first
        · exact .inr ⟨by omega, unit⟩

theorem unitsFrom_increasing (lens : List Nat) (flat : Nat) :
    (unitsFrom lens flat).Pairwise (· < ·) ∧ ∀ p ∈ unitsFrom lens flat, flat ≤ p := by
  induction lens generalizing flat with
  | nil => exact ⟨.nil, by simp [unitsFrom]⟩
  | cons len lens ih =>
    obtain ⟨increasing, behind⟩ := ih (flat + len + 1)
    constructor
    · apply List.pairwise_append.mpr
      refine ⟨?_, increasing, ?_⟩
      · apply List.pairwise_map.mpr
        exact List.pairwise_lt_range.imp fun less => Nat.add_lt_add_left less flat
      · intro p mem q later
        obtain ⟨k, inside, rfl⟩ := List.mem_map.mp mem
        have := List.mem_range.mp inside
        have := behind q later
        omega
    · intro p mem
      obtain mem | mem := List.mem_append.mp mem
      · obtain ⟨k, -, rfl⟩ := List.mem_map.mp mem
        omega
      · have := behind p mem
        omega

/-! ## The styles in the map -/

def charAt (map : FabricStylesMap) (line k : Nat) : Option FabricCharStyle :=
  (map line).bind fun lineMap => lineMap k

/-- The loop over a range of one line. -/
theorem foldl_styleChar {lineStart start n k : Nat} (inside : lineStart ≤ start)
    (style : FabricCharStyle) (lineMap : LineMap) :
    (List.range' start n).foldl (styleChar lineStart style) lineMap k =
      if start ≤ lineStart + k ∧ lineStart + k < start + n then
        some (((lineMap k).getD FabricCharStyle.empty).spread style)
      else lineMap k := by
  induction n generalizing start lineMap with
  | zero => rw [if_neg (by omega)]; rfl
  | succ n ih =>
    rw [List.range'_succ, List.foldl_cons, ih (by omega), styleChar, setChar]
    by_cases first : k = start - lineStart
    · rw [if_neg (by omega), if_pos first, if_pos (by omega), first]
    · rw [if_neg first]
      by_cases later : start + 1 ≤ lineStart + k ∧ lineStart + k < start + 1 + n
      · rw [if_pos later, if_pos (by omega)]
      · rw [if_neg later, if_neg (by omega)]

theorem charAt_styleLine {line lineStart start stop : Nat} (inside : lineStart ≤ start)
    (style : FabricCharStyle) (map : FabricStylesMap) (line' k : Nat) :
    charAt (styleLine map line lineStart start stop style) line' k =
      if line' = line ∧ start ≤ lineStart + k ∧ lineStart + k < stop then
        some (((charAt map line' k).getD FabricCharStyle.empty).spread style)
      else charAt map line' k := by
  rw [charAt, styleLine]
  beta_reduce
  by_cases here : line' = line
  · subst here
    have old : ((map line').getD fun _ => none) k = charAt map line' k := by
      rw [charAt]
      cases map line' <;> rfl
    rw [if_pos rfl, Option.bind_some, foldl_styleChar inside, old]
    by_cases within : start ≤ lineStart + k ∧ lineStart + k < stop
    · rw [if_pos (by omega), if_pos ⟨rfl, within⟩]
    · rw [if_neg (by omega), if_neg (fun h => within h.2)]
  · rw [if_neg here, if_neg (fun h => here h.1)]
    rfl

section
variable (start stop : Nat) (style : FabricCharStyle)

/-- What one line of the walk does to a character of that line, or of another one. -/
theorem charAt_styled {line flat len line' k : Nat} (inside : line' = line → k < len)
    (map : FabricStylesMap) :
    charAt (if max start flat < min stop (flat + len) then
        styleLine map line flat (max start flat) (min stop (flat + len)) style else map) line' k =
      if line' = line ∧ start ≤ flat + k ∧ flat + k < stop then
        some (((charAt map line' k).getD FabricCharStyle.empty).spread style)
      else charAt map line' k := by
  by_cases here : line' = line ∧ start ≤ flat + k ∧ flat + k < stop
  · have bound := inside here.1
    rw [if_pos (by omega), charAt_styleLine (le_max_right _ _), if_pos (by omega), if_pos here]
  · rw [if_neg here]
    split
    · rw [charAt_styleLine (le_max_right _ _), if_neg (by omega)]
    · rfl

theorem charAt_scatter_before {lens : List Nat} {line flat line' : Nat} (before : line' < line)
    (map : FabricStylesMap) (k : Nat) :
    charAt (scatter start stop style lens line flat map) line' k = charAt map line' k := by
  induction lens generalizing line flat map with
  | nil => rfl
  | cons len lens ih =>
    rw [scatter]
    split
    · rw [charAt_styled start stop style (by omega), if_neg (by omega)]
    · rw [ih (by omega), charAt_styled start stop style (by omega), if_neg (by omega)]

/-- The walk styles the characters of the range. -/
theorem charAt_scatter {lens : List Nat} {line flat line' k p : Nat}
    (stands : StandsAt lens line flat line' k p) (map : FabricStylesMap) :
    charAt (scatter start stop style lens line flat map) line' k =
      if start ≤ p ∧ p < stop then
        some (((charAt map line' k).getD FabricCharStyle.empty).spread style)
      else charAt map line' k := by
  induction stands generalizing map with
  | @here len lens line flat k inside =>
    have styled := @charAt_styled start stop style line flat len line k (fun _ => inside) map
    simp only [true_and] at styled
    rw [scatter]
    split
    · exact styled
    · rw [charAt_scatter_before start stop style (Nat.lt_succ_self line), styled]
  | @later len lens line flat line' k p stands ih =>
    obtain ⟨behind, low⟩ := stands.bounds
    have styled := @charAt_styled start stop style line flat len line' k (by omega) map
    have other : ¬(line' = line ∧ start ≤ flat + k ∧ flat + k < stop) := by omega
    rw [if_neg other] at styled
    rw [scatter]
    split
    · rw [styled, if_neg (by omega)]
    · rw [ih, styled]

end

/-! ## The effective styles -/

/-- What the runs that cover the index make of its style, in the order of the list. -/
def eff (runs : List TextStyleRun) (i : Int) : CharStyle :=
  runs.foldl (fun style run => if run.Covers i then style.spread run.value else style)
    CharStyle.empty

theorem eff_append_singleton (runs : List TextStyleRun) (run : TextStyleRun) (i : Int) :
    eff (runs ++ [run]) i =
      if run.Covers i then (eff runs i).spread run.value else eff runs i := by
  rw [eff, List.foldl_append]
  rfl

def styleAt (map : FabricStylesMap) (line k : Nat) : CharStyle :=
  ((charAt map line k).map fabricCharToModelStyle).getD CharStyle.empty

theorem styleAt_applyRun {lens : List Nat} {line k p : Nat} (stands : StandsAt lens 0 0 line k p)
    (map : FabricStylesMap) (run : TextStyleRun) :
    styleAt (applyRun lens map run) line k =
      if run.Covers p then (styleAt map line k).spread run.value else styleAt map line k := by
  rw [applyRun]
  split
  · have covers : run.Covers p ↔
        run.start.toNat ≤ p ∧ p < max run.start.toNat run.stop.toNat := by
      rw [Span.Covers]
      omega
    rw [styleAt, charAt_scatter _ _ _ stands]
    by_cases within : run.Covers p
    · rw [if_pos within, if_pos (covers.mp within), Option.map_some, Option.getD_some,
        fabric_spread, model_fabric_model, styleAt]
      cases charAt map line k <;> rfl
    · rw [if_neg within, if_neg (fun h => within (covers.mpr h))]
      rfl
  · rename_i bare
    have empty : run.value = CharStyle.empty := hasCharStyle_eq_false.mp (by simpa using bare)
    rw [empty, CharStyle.spread_empty, ite_self]

/-- The map holds the effective style of each character. -/
theorem styleAt_runsToFabricStyles {content : List CodeUnit} {line k p : Nat}
    (stands : StandsAt (lineLengths content) 0 0 line k p) (runs : Option (List TextStyleRun)) :
    styleAt (runsToFabricStyles content runs) line k = eff (runs.getD []) p := by
  cases runs with
  | none => rfl
  | some runs =>
    change styleAt (runs.foldl (applyRun (lineLengths content)) fun _ => none) line k = eff runs p
    induction runs using List.reverseRecOn with
    | nil => rfl
    | append_singleton runs run ih =>
      rw [List.foldl_append, List.foldl_cons, List.foldl_nil, styleAt_applyRun stands, ih,
        eff_append_singleton]

/-! ## The runs that come back -/

/-- The styles that are there, by the indices. -/
def entriesOf (units : List Nat) (f : Int → CharStyle) : List (Int × CharStyle) :=
  units.filterMap fun p : Nat => if hasCharStyle (f p) then some ((p : Int), f p) else none

theorem mem_entriesOf {units : List Nat} {f : Int → CharStyle} {i : Int} {v : CharStyle} :
    (i, v) ∈ entriesOf units f ↔ ∃ p ∈ units, i = (p : Int) ∧ f p = v ∧ v ≠ CharStyle.empty := by
  rw [entriesOf, List.mem_filterMap]
  constructor
  · rintro ⟨p, mem, shown⟩
    split at shown
    · rename_i styled
      cases shown
      refine ⟨p, mem, rfl, rfl, ?_⟩
      intro empty
      rw [empty] at styled
      cases styled
    · cases shown
  · rintro ⟨p, mem, rfl, rfl, styled⟩
    refine ⟨p, mem, if_pos ?_⟩
    by_contra bare
    exact styled (hasCharStyle_eq_false.mp (by simpa using bare))

theorem entriesOf_congr {units : List Nat} {f g : Int → CharStyle}
    (same : ∀ p ∈ units, f p = g p) : entriesOf units f = entriesOf units g := by
  apply List.filterMap_congr
  intro p mem
  rw [same p mem]

theorem lineStyles_eq {styles : FabricStylesMap} {line len flat : Nat} {f : Int → CharStyle}
    (agree : ∀ k < len, styleAt styles line k = f (flat + k : Nat)) :
    (match styles line with
      | none => []
      | some lineMap => lineStyles len flat lineMap) =
      entriesOf ((List.range len).map (flat + ·)) f := by
  rw [entriesOf, List.filterMap_map]
  cases found : styles line with
  | none =>
    symm
    apply List.filterMap_eq_nil_iff.mpr
    intro k mem
    have style := agree k (List.mem_range.mp mem)
    rw [styleAt, charAt, found] at style
    rw [Function.comp_apply, ← style]
    rfl
  | some lineMap =>
    apply List.filterMap_congr
    intro k mem
    have style := agree k (List.mem_range.mp mem)
    rw [styleAt, charAt, found, Option.bind_some] at style
    rw [Function.comp_apply, ← style]
    cases lineMap k <;> rfl

theorem flatStyles_eq {styles : FabricStylesMap} {lens : List Nat} {line flat : Nat}
    {f : Int → CharStyle}
    (agree : ∀ line' k p, StandsAt lens line flat line' k p → styleAt styles line' k = f p) :
    flatStyles styles lens line flat = entriesOf (unitsFrom lens flat) f := by
  induction lens generalizing line flat with
  | nil => rfl
  | cons len lens ih =>
    rw [flatStyles, lineStyles_eq fun k inside => agree line k (flat + k) (.here inside),
      ih fun line' k p stands => agree line' k p (.later stands), unitsFrom, entriesOf, entriesOf,
      entriesOf, List.filterMap_append]

theorem entriesOf_increasing (lens : List Nat) (f : Int → CharStyle) :
    (entriesOf (unitsFrom lens 0) f).Pairwise fun e e' => e.1 < e'.1 := by
  apply List.Pairwise.filterMap _ _ (unitsFrom_increasing lens 0).1
  intro p q less e here e' here'
  split at here
  · split at here'
    · cases here
      cases here'
      exact Int.ofNat_lt.mpr less
    · cases here'
  · cases here

def OpenRun.Keyed (s : OpenRun) : Prop := s.prevKey = charStyleKey s.prevStyle

theorem close_next {s : OpenRun} (keyed : s.Keyed) (entry : Int × CharStyle) :
    (s.next entry).close = add s.close entry ∧ (s.next entry).Keyed := by
  rw [OpenRun.close, OpenRun.close, add_append_singleton, OpenRun.next, keyed]
  simp only [charStyleKey_inj]
  split
  · exact ⟨rfl, rfl⟩
  · exact ⟨rfl, rfl⟩

theorem foldl_next (entries : List (Int × CharStyle)) {s : OpenRun} (keyed : s.Keyed) :
    (entries.foldl OpenRun.next s).close = entries.foldl add s.close := by
  induction entries generalizing s with
  | nil => rfl
  | cons entry entries ih =>
    obtain ⟨closed, keyed'⟩ := close_next keyed entry
    rw [List.foldl_cons, List.foldl_cons, ih keyed', closed]

/-- The entries of the characters that have a style. -/
def styledEntries (content : List CodeUnit) (runs : List TextStyleRun) : List (Int × CharStyle) :=
  entriesOf (unitsFrom (lineLengths content) 0) (eff runs)

theorem roundTrip_eq (content : List CodeUnit) (runs : Option (List TextStyleRun)) :
    roundTrip content runs =
      if styledEntries content (runs.getD []) = [] then none
      else some (spansOf (styledEntries content (runs.getD []))) := by
  have flat : flatStyles (runsToFabricStyles content runs) (lineLengths content) 0 0 =
      styledEntries content (runs.getD []) :=
    flatStyles_eq fun line k p stands => styleAt_runsToFabricStyles stands runs
  have sorted : (styledEntries content (runs.getD [])).insertionSort (fun a b => a.1 ≤ b.1) =
      styledEntries content (runs.getD []) := by
    apply List.Pairwise.insertionSort_eq
    exact (entriesOf_increasing _ _).imp fun less => less.le
  rw [roundTrip, fabricStylesToRuns, Option.bind_some, flat, sorted]
  cases styledEntries content (runs.getD []) with
  | nil => rfl
  | cons entry rest =>
    rw [if_neg (List.cons_ne_nil _ _)]
    exact congrArg some (foldl_next rest rfl)

theorem mem_styledEntries {content : List CodeUnit} {runs : List TextStyleRun} {i : Int}
    {v : CharStyle} :
    (i, v) ∈ styledEntries content runs ↔
      ∃ p : Nat, IsUnit content p ∧ i = p ∧ eff runs p = v ∧ v ≠ CharStyle.empty := by
  rw [styledEntries, mem_entriesOf]
  apply exists_congr
  intro p
  rw [mem_unitsFrom, Nat.sub_zero, and_iff_right (Nat.zero_le p)]

theorem styledEntries_eq_nil_iff {content : List CodeUnit} {runs : List TextStyleRun} :
    styledEntries content runs = [] ↔
      ∀ p, IsUnit content p → eff runs p = CharStyle.empty := by
  rw [List.eq_nil_iff_forall_not_mem]
  constructor
  · intro none p unit
    by_contra styled
    exact none (p, eff runs p) (mem_styledEntries.mpr ⟨p, unit, rfl, rfl, styled⟩)
  · rintro bare ⟨i, v⟩ mem
    obtain ⟨p, unit, rfl, rfl, styled⟩ := mem_styledEntries.mp mem
    exact styled (bare p unit)

/-- The effective style where all the runs that cover the index have one style. -/
theorem eff_of_one {runs : List TextStyleRun} {i : Int} {v : CharStyle}
    (one : ∀ run ∈ runs, run.Covers i → run.value = v) :
    eff runs i = if ∃ run ∈ runs, run.Covers i then v else CharStyle.empty := by
  induction runs using List.reverseRecOn with
  | nil => simp [eff]
  | append_singleton runs run ih =>
    have before := ih fun other mem => one other (List.mem_append_left _ mem)
    rw [eff_append_singleton, before]
    by_cases covers : run.Covers i
    · have covered : ∃ other ∈ runs ++ [run], other.Covers i := ⟨run, by simp, covers⟩
      rw [if_pos covers, one run (by simp) covers, if_pos covered]
      split
      · exact CharStyle.spread_self v
      · exact CharStyle.empty_spread v
    · simp [covers, or_and_right, exists_or]

/-- The runs are those of the effective styles of `runs`: they do not overlap and cannot be
prolonged, have these styles, and cover no newline and nothing outside the text. -/
structure Coalesced (content : List CodeUnit) (runs rs : List TextStyleRun) : Prop where
  maximal : Maximal rs
  styles : ∀ p : Nat, IsUnit content p → eff rs p = eff runs p
  inside : ∀ run ∈ rs, ∀ i, run.Covers i → ∃ p : Nat, i = p ∧ IsUnit content p ∧
    eff runs p = run.value ∧ run.value ≠ CharStyle.empty

theorem coalesced_spansOf (content : List CodeUnit) (runs : List TextStyleRun) :
    Coalesced content runs (spansOf (styledEntries content runs)) := by
  have joined := joined_spansOf (entriesOf_increasing (lineLengths content) (eff runs))
  have inside : ∀ run ∈ spansOf (styledEntries content runs), ∀ i, run.Covers i →
      ∃ p : Nat, i = p ∧ IsUnit content p ∧ eff runs p = run.value ∧
        run.value ≠ CharStyle.empty := by
    intro run mem i covers
    obtain ⟨p, unit, same, style, styled⟩ :=
      mem_styledEntries.mp ((joined.holds i run.value).mp ⟨run, mem, covers, rfl⟩)
    exact ⟨p, same, unit, style, styled⟩
  refine ⟨joined.maximal, ?_, inside⟩
  intro p unit
  rw [eff_of_one (v := eff runs p)]
  · split
    · rfl
    · rename_i uncovered
      by_contra styled
      obtain ⟨run, mem, covers, -⟩ := (joined.holds p (eff runs p)).mpr
        (mem_styledEntries.mpr ⟨p, unit, rfl, rfl, fun empty => styled empty.symm⟩)
      exact uncovered ⟨run, mem, covers⟩
  · intro run mem covers
    obtain ⟨q, same, -, style, -⟩ := inside run mem p covers
    rw [← style, Int.ofNat_inj.mp same]

end GigaPdf
