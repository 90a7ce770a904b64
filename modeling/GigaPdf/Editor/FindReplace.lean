import GigaPdf.Editor.ParagraphSession
import GigaPdf.Lib.Search

/-!
# Find and replace

`findOccurrences`, `replaceOccurrence` and `replaceAllInDocument`. Without regard to case the places
are found in the lower-cased text, and used in the text itself.
-/

namespace GigaPdf

open ParagraphSession (CodeUnit)
open Search

structure FindOptions where
  caseSensitive : Bool
  wholeWord : Bool
deriving DecidableEq

/-- Only text elements have a content. -/
structure FindElement where
  elementId : String
  content : Option (List CodeUnit)
deriving DecidableEq

/-- The text is that from `start` up to `stop`. -/
structure FindOccurrence where
  pageIndex : Nat
  pageNumber : Nat
  elementId : String
  content : List CodeUnit
  start : Nat
  stop : Nat
deriving DecidableEq

structure ReplacedContent where
  elementId : String
  pageIndex : Nat
  pageNumber : Nat
  content : List CodeUnit
  count : Nat
deriving DecidableEq

structure FoundText where
  pageIndex : Nat
  elementId : String
  content : List CodeUnit
deriving DecidableEq

/-- The text elements of all pages, in the order in which they are visited. -/
def textElements (pages : List (List FindElement)) : List FoundText :=
  pages.zipIdx.flatMap fun page => page.1.filterMap fun element =>
    element.content.map fun content => ⟨page.2, element.elementId, content⟩

/-- `isWord` is the test of `WORD_BOUNDARY`. -/
def isWordBoundaryAt (isWord : CodeUnit → Bool) (text : List CodeUnit) (index : Nat)
    (backward : Bool) : Bool :=
  let neighbour := if backward then (if index = 0 then none else text[index - 1]?) else text[index]?
  !neighbour.any isWord

section
variable (toLowerCase : List CodeUnit → List CodeUnit) (isWord : CodeUnit → Bool)

def boundedOk (wholeWord : Bool) (content : List CodeUnit) (start stop : Nat) : Bool :=
  !wholeWord || isWordBoundaryAt isWord content start true &&
    isWordBoundaryAt isWord content stop false

def folded (caseSensitive : Bool) (text : List CodeUnit) : List CodeUnit :=
  if caseSensitive then text else toLowerCase text

section
variable (haystack probe content : List CodeUnit) (wholeWord : Bool)

/-- The scan of `findOccurrences`; `none` when the fuel has run out. -/
def scanOccurrences : Nat → Nat → Option (List (Nat × Nat))
  | 0, _ => none
  | fuel + 1, position =>
    match indexOf haystack probe position with
    | none => some []
    | some start =>
      let stop := start + probe.length
      (scanOccurrences fuel (start + 1)).map fun rest =>
        if boundedOk isWord wholeWord content start stop then (start, stop) :: rest else rest

structure Replacing where
  out : List CodeUnit
  cursor : Nat
  count : Nat
deriving DecidableEq

/-- The scan of `replaceAllInDocument`. A unit that begins no replacement is kept. -/
def scanReplacements (replacement : List CodeUnit) : Nat → Replacing → Option Replacing
  | 0, _ => none
  | fuel + 1, r =>
    match indexOf haystack probe r.cursor with
    | none => some r
    | some start =>
      let stop := start + probe.length
      scanReplacements replacement fuel <|
        if boundedOk isWord wholeWord content start stop then
          ⟨r.out ++ (slice content r.cursor start ++ replacement), stop, r.count + 1⟩
        else ⟨r.out ++ slice content r.cursor (start + 1), start + 1, r.count⟩

end

variable (needle replacement : List CodeUnit) (options : FindOptions)

/-- The occurrences in one element. A position moves on with every step. -/
def occurrencesIn (e : FoundText) : Option (List FindOccurrence) :=
  let haystack := folded toLowerCase options.caseSensitive e.content
  let probe := folded toLowerCase options.caseSensitive needle
  (scanOccurrences isWord haystack probe e.content options.wholeWord (haystack.length + 1) 0).map
    fun found => found.map fun place =>
      ⟨e.pageIndex, e.pageIndex + 1, e.elementId, e.content, place.1, place.2⟩

def findOccurrences (pages : List (List FindElement)) : Option (List FindOccurrence) :=
  if needle = [] then some []
  else
    ((textElements pages).mapM (occurrencesIn toLowerCase isWord needle options)).map List.flatten

/-- `null` when the text is not there any more. -/
def replaceOccurrence (occurrence : FindOccurrence) : Option (List CodeUnit) :=
  let piece := slice occurrence.content occurrence.start occurrence.stop
  if folded toLowerCase options.caseSensitive piece =
      folded toLowerCase options.caseSensitive needle then
    some (occurrence.content.take occurrence.start ++ replacement ++
      occurrence.content.drop occurrence.stop)
  else none

/-- An element in which nothing is replaced has no result. -/
def replacedIn (e : FoundText) : Option (Option ReplacedContent) :=
  let haystack := folded toLowerCase options.caseSensitive e.content
  let probe := folded toLowerCase options.caseSensitive needle
  (scanReplacements isWord haystack probe e.content options.wholeWord replacement
      (haystack.length + 1) ⟨[], 0, 0⟩).map fun r =>
    if 0 < r.count then
      some ⟨e.elementId, e.pageIndex, e.pageIndex + 1, r.out ++ e.content.drop r.cursor, r.count⟩
    else none

def replaceAllInDocument (pages : List (List FindElement)) : Option (List ReplacedContent) :=
  if needle = [] then some []
  else
    ((textElements pages).mapM (replacedIn toLowerCase isWord needle replacement options)).map
      List.reduceOption

end

/-! ## What the scans find -/

/-- Where the probe stands and is bounded. -/
def starts (isWord : CodeUnit → Bool) (haystack probe content : List CodeUnit) (wholeWord : Bool) :
    List Nat :=
  places haystack probe fun i => boundedOk isWord wholeWord content i (i + probe.length)

section
variable {isWord : CodeUnit → Bool} {haystack probe content : List CodeUnit} {wholeWord : Bool}

theorem scanOccurrences_eq (nonempty : probe ≠ []) {fuel position : Nat}
    (enough : haystack.length < position + fuel) (bound : position ≤ haystack.length) :
    scanOccurrences isWord haystack probe content wholeWord fuel position =
      some (((starts isWord haystack probe content wholeWord).filter (position ≤ ·)).map
        fun start => (start, start + probe.length)) := by
  induction fuel generalizing position with
  | zero => exact absurd enough (by omega)
  | succ fuel ih =>
    rw [scanOccurrences]
    cases found : indexOf haystack probe position with
    | none => rw [starts, places_from_none _ nonempty found, List.map_nil]
    | some start =>
      obtain ⟨low, here, -⟩ := indexOf_eq_some nonempty found
      have inside := matchesAt_bound nonempty here
      have from_start := places_from
        (fun i => boundedOk isWord wholeWord content i (i + probe.length)) nonempty found
      simp only
      rw [ih (by omega) inside, starts, from_start, Option.map_some]
      split
      · rfl
      · rfl

/-- What has been put out so far, and what the rest becomes. -/
theorem scanReplacements_eq (nonempty : probe ≠ []) {replacement : List CodeUnit} {fuel : Nat}
    {r : Replacing} (enough : haystack.length < r.cursor + fuel)
    (bound : r.cursor ≤ haystack.length) :
    ∃ r', scanReplacements isWord haystack probe content wholeWord replacement fuel r = some r' ∧
      r'.out ++ content.drop r'.cursor = r.out ++ replaceAt content replacement probe.length
        r.cursor (greedy probe.length r.cursor
          (starts isWord haystack probe content wholeWord)) ∧
      r'.count = r.count +
        (greedy probe.length r.cursor (starts isWord haystack probe content wholeWord)).length := by
  have wide : 0 < probe.length := List.length_pos_of_ne_nil nonempty
  induction fuel generalizing r with
  | zero => exact absurd enough (by omega)
  | succ fuel ih =>
    rw [scanReplacements]
    cases found : indexOf haystack probe r.cursor with
    | none =>
      have finished := places_from_none
        (fun i => boundedOk isWord wholeWord content i (i + probe.length)) nonempty found
      rw [starts, greedy_of_nil wide finished, replaceAt_nil]
      exact ⟨r, rfl, rfl, rfl⟩
    | some start =>
      obtain ⟨low, here, -⟩ := indexOf_eq_some nonempty found
      have inside := bound_of_matchesAt nonempty here
      have from_start := places_from
        (fun i => boundedOk isWord wholeWord content i (i + probe.length)) nonempty found
      simp only
      split
      · rename_i bounded
        rw [if_pos bounded] at from_start
        obtain ⟨r', scanned, out, count⟩ := ih (r := ⟨r.out ++ (slice content r.cursor start ++
          replacement), start + probe.length, r.count + 1⟩) (by simp only; omega) inside
        refine ⟨r', scanned, ?_, ?_⟩
        · rw [out, starts, greedy_of_cons wide from_start, replaceAt_cons, List.append_assoc]
        · rw [count, starts, greedy_of_cons wide from_start, List.length_cons]
          exact Nat.succ_add_eq_add_succ _ _
      · rename_i unbounded
        rw [if_neg unbounded, List.nil_append] at from_start
        obtain ⟨r', scanned, out, count⟩ := ih (r := ⟨r.out ++ slice content r.cursor (start + 1),
          start + 1, r.count⟩) (by simp only; omega) (by simp only; omega)
        have same := greedy_congr probe.length wide from_start
        refine ⟨r', scanned, ?_, ?_⟩
        · rw [out, starts, same, List.append_assoc]
          congr 1
          exact slice_append_replaceAt content replacement probe.length (by omega)
            fun i mem => greedy_low i mem
        · rw [count, starts, same]

end

section
variable {toLowerCase : List CodeUnit → List CodeUnit} {isWord : CodeUnit → Bool}
  {needle replacement : List CodeUnit} {options : FindOptions}

/-- Where the needle is found in an element. -/
def startsIn (toLowerCase : List CodeUnit → List CodeUnit) (isWord : CodeUnit → Bool)
    (needle : List CodeUnit) (options : FindOptions) (content : List CodeUnit) : List Nat :=
  starts isWord (folded toLowerCase options.caseSensitive content)
    (folded toLowerCase options.caseSensitive needle) content options.wholeWord

def FoundText.occurrence (e : FoundText) (width start : Nat) : FindOccurrence :=
  ⟨e.pageIndex, e.pageIndex + 1, e.elementId, e.content, start, start + width⟩

/-- An element with other content at some places, if there are any. -/
def FoundText.replaced (e : FoundText) (replacement : List CodeUnit) (width : Nat)
    (places : List Nat) : Option ReplacedContent :=
  if places = [] then none
  else
    some ⟨e.elementId, e.pageIndex, e.pageIndex + 1, replaceAt e.content replacement width 0 places,
      places.length⟩

theorem mapM_some {α β : Type} (f : α → β) (l : List α) :
    l.mapM (fun a => some (f a)) = some (l.map f) :=
  List.mapM_pure

theorem occurrencesIn_eq (nonempty : folded toLowerCase options.caseSensitive needle ≠ [])
    (e : FoundText) : occurrencesIn toLowerCase isWord needle options e =
      some ((startsIn toLowerCase isWord needle options e.content).map
        (e.occurrence (folded toLowerCase options.caseSensitive needle).length)) := by
  rw [occurrencesIn, scanOccurrences_eq nonempty (by omega) (Nat.zero_le _), Option.map_some,
    List.map_map, List.filter_eq_self.mpr fun i _ => decide_eq_true (Nat.zero_le i)]
  rfl

theorem replacedIn_eq (nonempty : folded toLowerCase options.caseSensitive needle ≠ [])
    (e : FoundText) : replacedIn toLowerCase isWord needle replacement options e =
      some (e.replaced replacement (folded toLowerCase options.caseSensitive needle).length
        (greedy (folded toLowerCase options.caseSensitive needle).length 0
          (startsIn toLowerCase isWord needle options e.content))) := by
  obtain ⟨r, scanned, out, count⟩ := @scanReplacements_eq isWord
    (folded toLowerCase options.caseSensitive e.content) _ e.content options.wholeWord nonempty
    replacement ((folded toLowerCase options.caseSensitive e.content).length + 1) ⟨[], 0, 0⟩
    (by simp only; omega) (Nat.zero_le _)
  rw [List.nil_append] at out
  rw [Nat.zero_add] at count
  rw [replacedIn, scanned, Option.map_some, out, count, FoundText.replaced]
  congr 1
  split
  · rename_i some_places
    exact (if_neg (List.ne_nil_of_length_pos some_places)).symm
  · rename_i none_left
    exact (if_pos (List.length_eq_zero_iff.mp (Nat.eq_zero_of_not_pos none_left))).symm

variable (options) in
theorem findOccurrences_eq (given : needle ≠ [])
    (nonempty : folded toLowerCase options.caseSensitive needle ≠ [])
    (pages : List (List FindElement)) : findOccurrences toLowerCase isWord needle options pages =
      some ((textElements pages).flatMap fun e =>
        (startsIn toLowerCase isWord needle options e.content).map
          (e.occurrence (folded toLowerCase options.caseSensitive needle).length)) := by
  have found := mapM_some (fun e => (startsIn toLowerCase isWord needle options e.content).map
    (e.occurrence (folded toLowerCase options.caseSensitive needle).length)) (textElements pages)
  rw [findOccurrences, if_neg given, funext (occurrencesIn_eq nonempty), found]
  rfl

variable (options) in
theorem replaceAllInDocument_eq (given : needle ≠ [])
    (nonempty : folded toLowerCase options.caseSensitive needle ≠ [])
    (pages : List (List FindElement)) :
    replaceAllInDocument toLowerCase isWord needle replacement options pages =
      some ((textElements pages).filterMap fun e =>
        e.replaced replacement (folded toLowerCase options.caseSensitive needle).length
          (greedy (folded toLowerCase options.caseSensitive needle).length 0
            (startsIn toLowerCase isWord needle options e.content))) := by
  have replaced := mapM_some (fun e : FoundText =>
    e.replaced replacement (folded toLowerCase options.caseSensitive needle).length
      (greedy (folded toLowerCase options.caseSensitive needle).length 0
        (startsIn toLowerCase isWord needle options e.content))) (textElements pages)
  rw [replaceAllInDocument, if_neg given, funext (replacedIn_eq nonempty), replaced,
    Option.map_some, Option.some.injEq]
  exact List.filterMap_map

end

/-! ## With regard to case -/

/-- What is replaced are the occurrences that are found, from the left and without an overlap, and
the rest of the text stays as it is. -/
theorem replaced_are_found (toLowerCase : List CodeUnit → List CodeUnit) (isWord : CodeUnit → Bool)
    {needle : List CodeUnit} (given : needle ≠ []) (replacement : List CodeUnit) (wholeWord : Bool)
    (pages : List (List FindElement)) :
    findOccurrences toLowerCase isWord needle ⟨true, wholeWord⟩ pages =
        some ((textElements pages).flatMap fun e =>
          (startsIn toLowerCase isWord needle ⟨true, wholeWord⟩ e.content).map
            (e.occurrence needle.length)) ∧
      replaceAllInDocument toLowerCase isWord needle replacement ⟨true, wholeWord⟩ pages =
        some ((textElements pages).filterMap fun e =>
          e.replaced replacement needle.length (greedy needle.length 0
            (startsIn toLowerCase isWord needle ⟨true, wholeWord⟩ e.content))) ∧
      ∀ content, let starts := startsIn toLowerCase isWord needle ⟨true, wholeWord⟩ content
        starts.Pairwise (· < ·) ∧ (greedy needle.length 0 starts).Sublist starts ∧
          replaceAt content needle needle.length 0 (greedy needle.length 0 starts) = content := by
  refine ⟨findOccurrences_eq ⟨true, wholeWord⟩ given given pages,
    replaceAllInDocument_eq ⟨true, wholeWord⟩ given given pages, fun content => ?_⟩
  have sub := greedy_sublist needle.length 0
    (startsIn toLowerCase isWord needle ⟨true, wholeWord⟩ content)
  refine ⟨places_sorted, sub, ?_⟩
  refine (replaceAt_self (fun i _ => Nat.zero_le i) (greedy_separate ..) fun i mem => ?_).trans
    List.drop_zero
  exact ((mem_places given).mp (sub.subset mem)).1

/-- "aaa" holds "aa" at 0 and at 1, and only the first is replaced. -/
theorem replaced_are_found_overlapping :
    let isWord : CodeUnit → Bool := fun _ => false
    let pages : List (List FindElement) := [[⟨"t", some [0x61, 0x61, 0x61]⟩]]
    findOccurrences id isWord [0x61, 0x61] ⟨true, false⟩ pages =
        some ((textElements pages).flatMap fun e =>
          (startsIn id isWord [0x61, 0x61] ⟨true, false⟩ e.content).map (e.occurrence 2)) ∧
      replaceAllInDocument id isWord [0x61, 0x61] [0x62] ⟨true, false⟩ pages =
        some ((textElements pages).filterMap fun e => e.replaced [0x62] 2 (greedy 2 0
          (startsIn id isWord [0x61, 0x61] ⟨true, false⟩ e.content))) ∧
      startsIn id isWord [0x61, 0x61] ⟨true, false⟩ [0x61, 0x61, 0x61] = [0, 1] ∧
      replaceAllInDocument id isWord [0x61, 0x61] [0x62] ⟨true, false⟩ pages =
        some [⟨"t", 0, 1, [0x62, 0x61], 1⟩] := by
  intro isWord pages
  have given : ([0x61, 0x61] : List CodeUnit) ≠ [] := by decide
  obtain ⟨found, replaced, -⟩ := replaced_are_found id isWord given [0x62] false pages
  exact ⟨found, replaced, by decide, by decide⟩

/-! ## Without regard to case -/

/-- Of `toLowerCase`: no text disappears, and what has been lower-cased stays as it is. -/
structure LowerCasing (toLowerCase : List CodeUnit → List CodeUnit) : Prop where
  nonempty : ∀ text, text ≠ [] → toLowerCase text ≠ []
  stable : ∀ text start stop, toLowerCase (slice (toLowerCase text) start stop) =
    slice (toLowerCase text) start stop

/-- Each occurrence is one in the text itself, and the text is replaced at such places and kept
everywhere else. -/
structure TextKept (toLowerCase : List CodeUnit → List CodeUnit) (isWord : CodeUnit → Bool)
    (pages : List (List FindElement)) (needle replacement : List CodeUnit) (wholeWord : Bool) :
    Prop where
  found : ∃ occurrences,
    findOccurrences toLowerCase isWord needle ⟨false, wholeWord⟩ pages = some occurrences ∧
      ∀ o ∈ occurrences, toLowerCase (slice o.content o.start o.stop) = toLowerCase needle ∧
        replaceOccurrence toLowerCase needle replacement ⟨false, wholeWord⟩ o ≠ none
  replaced : ∃ results,
    replaceAllInDocument toLowerCase isWord needle replacement ⟨false, wholeWord⟩ pages =
        some results ∧
      ∀ r ∈ results, ∃ e ∈ textElements pages, ∃ width places,
        r.elementId = e.elementId ∧ r.pageIndex = e.pageIndex ∧ r.count = places.length ∧
        r.content = replaceAt e.content replacement width 0 places ∧
        places.Pairwise (fun i j => i + width ≤ j) ∧
        ∀ i ∈ places, i + width ≤ e.content.length ∧
          toLowerCase (slice e.content i (i + width)) = toLowerCase needle

/-- A text is lower-cased piece by piece. -/
def LowersByPieces (toLowerCase : List CodeUnit → List CodeUnit) (text : List CodeUnit) : Prop :=
  ∀ start stop, start < stop → stop ≤ (toLowerCase text).length →
    toLowerCase (slice text start stop) = slice (toLowerCase text) start stop

section
variable {toLowerCase : List CodeUnit → List CodeUnit} {isWord : CodeUnit → Bool}
  {needle replacement content : List CodeUnit} {wholeWord : Bool}

theorem LowerCasing.nil (lowerCasing : LowerCasing toLowerCase) : toLowerCase [] = [] :=
  lowerCasing.stable [] 0 0

/-- Such a text does not become longer. -/
theorem LowersByPieces.length_le (byPieces : LowersByPieces toLowerCase content)
    (lowerCasing : LowerCasing toLowerCase) : (toLowerCase content).length ≤ content.length := by
  by_contra longer
  have last := byPieces content.length _ (Nat.lt_of_not_le longer) (Nat.le_refl _)
  have past : slice content content.length (toLowerCase content).length = [] := by
    rw [slice, List.drop_take, List.drop_length, List.take_nil]
  rw [past, lowerCasing.nil] at last
  have length := congrArg List.length last
  rw [length_slice, List.length_nil] at length
  omega

/-- A place in the lower-cased text is one in the text. -/
theorem LowersByPieces.place (byPieces : LowersByPieces toLowerCase content)
    (lowerCasing : LowerCasing toLowerCase) (given : needle ≠ []) {i : Nat}
    (mem : i ∈ startsIn toLowerCase isWord needle ⟨false, wholeWord⟩ content) :
    i + (toLowerCase needle).length ≤ content.length ∧
      toLowerCase (slice content i (i + (toLowerCase needle).length)) = toLowerCase needle := by
  have nonempty := lowerCasing.nonempty needle given
  have here : slice (toLowerCase content) i (i + (toLowerCase needle).length) =
      toLowerCase needle := ((mem_places nonempty).mp mem).1
  have bound := bound_of_matchesAt nonempty (matchesAt_iff.mpr here)
  have wide := List.length_pos_of_ne_nil nonempty
  refine ⟨Nat.le_trans bound (byPieces.length_le lowerCasing), ?_⟩
  rw [byPieces i _ (by omega) bound, here]

theorem textKept_of_byPieces (lowerCasing : LowerCasing toLowerCase)
    {pages : List (List FindElement)} (given : needle ≠ [])
    (byPieces : ∀ e ∈ textElements pages, LowersByPieces toLowerCase e.content) :
    TextKept toLowerCase isWord pages needle replacement wholeWord := by
  have nonempty := lowerCasing.nonempty needle given
  constructor
  · refine ⟨_, findOccurrences_eq ⟨false, wholeWord⟩ given nonempty pages, ?_⟩
    intro o mem
    obtain ⟨e, he, mem⟩ := List.mem_flatMap.mp mem
    obtain ⟨i, hi, rfl⟩ := List.mem_map.mp mem
    have here := ((byPieces e he).place lowerCasing given hi).2
    refine ⟨here, ?_⟩
    rw [replaceOccurrence]
    exact Option.isSome_iff_ne_none.mp (if_pos here ▸ rfl)
  · refine ⟨_, replaceAllInDocument_eq ⟨false, wholeWord⟩ given nonempty pages, ?_⟩
    intro r mem
    obtain ⟨e, he, mem⟩ := List.mem_filterMap.mp mem
    obtain ⟨-, same⟩ := Option.ite_none_left_eq_some.mp mem
    cases same
    refine ⟨e, he, _, _, rfl, rfl, rfl, rfl, greedy_separate .., fun i mem => ?_⟩
    exact (byPieces e he).place lowerCasing given ((greedy_sublist ..).subset mem)

/-- A piece of the lower-cased text is found where it stands. -/
theorem byPieces_of_textKept (lowerCasing : LowerCasing toLowerCase)
    {pages : List (List FindElement)}
    (kept : ∀ needle, needle ≠ [] →
      TextKept toLowerCase isWord pages needle replacement false)
    {e : FoundText} (he : e ∈ textElements pages) : LowersByPieces toLowerCase e.content := by
  intro start stop low high
  let needle := slice (toLowerCase e.content) start stop
  have width : needle.length = stop - start := by
    rw [length_slice, Nat.min_eq_left high]
  have given : needle ≠ [] := List.ne_nil_of_length_pos (by omega)
  have same : toLowerCase needle = needle := lowerCasing.stable e.content start stop
  have nonempty := lowerCasing.nonempty needle given
  obtain ⟨occurrences, found, all⟩ := (kept needle given).found
  rw [findOccurrences_eq ⟨false, false⟩ given nonempty pages,
    Option.some.injEq] at found
  have mem : start ∈ startsIn toLowerCase isWord needle ⟨false, false⟩ e.content := by
    refine (mem_places nonempty).mpr ⟨?_, rfl⟩
    change slice (toLowerCase e.content) start (start + (toLowerCase needle).length) = _
    rw [same, width, Nat.add_sub_cancel' (Nat.le_of_lt low)]
  have here := (all (e.occurrence (toLowerCase needle).length start) (by
    rw [← found]
    exact List.mem_flatMap.mpr ⟨e, he, List.mem_map_of_mem mem⟩)).1
  rw [same] at here
  change toLowerCase (slice e.content start (start + needle.length)) = _ at here
  rw [width, Nat.add_sub_cancel' (Nat.le_of_lt low)] at here
  exact here

end

/-- Without regard to case the texts are kept, whatever is searched for, just when they are
lower-cased piece by piece. -/
theorem textKept_iff {toLowerCase : List CodeUnit → List CodeUnit}
    (lowerCasing : LowerCasing toLowerCase) (isWord : CodeUnit → Bool)
    (pages : List (List FindElement)) :
    (∀ needle replacement wholeWord, needle ≠ [] →
        TextKept toLowerCase isWord pages needle replacement wholeWord) ↔
      ∀ e ∈ textElements pages, LowersByPieces toLowerCase e.content := by
  constructor
  · intro kept e he
    exact byPieces_of_textKept lowerCasing (fun needle given => kept needle [] false given) he
  · intro byPieces needle replacement wholeWord given
    exact textKept_of_byPieces lowerCasing given byPieces

/-- `toLowerCase` on the letters of ASCII and on İ, which becomes two units. -/
def lowerUnit (u : CodeUnit) : List CodeUnit :=
  if u = 0x130 then [0x69, 0x307]
  else if 0x41 ≤ u.toNat ∧ u.toNat ≤ 0x5A then [u + 0x20]
  else [u]

def lowerUnits (text : List CodeUnit) : List CodeUnit := text.flatMap lowerUnit

theorem lowerUnit_stable {u v : CodeUnit} (mem : v ∈ lowerUnit u) : lowerUnit v = [v] := by
  rw [lowerUnit] at mem
  split at mem
  · obtain rfl | mem := List.mem_cons.mp mem
    · decide
    · rw [List.mem_singleton.mp mem]
      decide
  · split at mem
    · rename_i letter
      rw [List.mem_singleton.mp mem]
      have size : (u + 0x20).toNat = u.toNat + 0x20 := by
        rw [UInt16.toNat_add, Nat.mod_eq_of_lt]
        · rfl
        · change u.toNat + 32 < 65536
          omega
      have other : u + 0x20 ≠ 0x130 := by
        intro same
        have := congrArg UInt16.toNat same
        rw [size] at this
        change u.toNat + 32 = 304 at this
        omega
      rw [lowerUnit, if_neg other, if_neg (by rw [size]; omega)]
    · rename_i plain
      rw [List.mem_singleton.mp mem, lowerUnit, if_neg ‹_›, if_neg plain]

theorem lowerCasing_lowerUnits : LowerCasing lowerUnits := by
  constructor
  · intro text given nothing
    obtain ⟨u, text, rfl⟩ := List.exists_cons_of_ne_nil given
    have first := (List.flatMap_eq_nil_iff.mp nothing) u List.mem_cons_self
    rw [lowerUnit] at first
    split at first
    · cases first
    · split at first <;> cases first
  · intro text start stop
    have all : ∀ v ∈ slice (lowerUnits text) start stop, lowerUnit v = [v] := by
      intro v mem
      obtain ⟨u, -, mem⟩ := List.mem_flatMap.mp (List.mem_of_mem_take (List.mem_of_mem_drop mem))
      exact lowerUnit_stable mem
    rw [lowerUnits, List.flatMap_congr all, List.flatMap_singleton']

def searchedPage (content : List CodeUnit) : List (List FindElement) := [[⟨"t", some content⟩]]

theorem textKept_iff_ascii :
    (∀ needle replacement wholeWord, needle ≠ [] →
        TextKept lowerUnits (fun _ => false) (searchedPage [0x41, 0x62]) needle replacement
          wholeWord) ↔
      ∀ e ∈ textElements (searchedPage [0x41, 0x62]), LowersByPieces lowerUnits e.content :=
  textKept_iff lowerCasing_lowerUnits _ _

/-- In "İx" the x is found behind the end of the text, and its replacement is appended. -/
theorem text_not_kept :
    replaceAllInDocument lowerUnits (fun _ => false) [0x78] [0x79] ⟨false, false⟩
        (searchedPage [0x130, 0x78]) = some [⟨"t", 0, 1, [0x130, 0x78, 0x79], 1⟩] ∧
      ¬TextKept lowerUnits (fun _ => false) (searchedPage [0x130, 0x78]) [0x78] [0x79] false := by
  refine ⟨by decide, fun kept => ?_⟩
  obtain ⟨occurrences, found, all⟩ := kept.found
  have result : findOccurrences lowerUnits (fun _ => false) [0x78] ⟨false, false⟩
      (searchedPage [0x130, 0x78]) = some [⟨0, 1, "t", [0x130, 0x78], 2, 3⟩] := by decide
  rw [result] at found
  cases found
  exact absurd (all _ List.mem_cons_self).1 (by decide)

end GigaPdf
