import GigaPdf.Lib.Text
import GigaPdf.Lib.Words

/-!
# File names

`sanitize_filename` and `split_filename` of `helpers.py`. A name is cleaned first and then cut to
its length; the cut looks only at the extension, so it can leave a name that is not clean.
-/

namespace GigaPdf.FileNames

open Text Scanning Words

/-! ## Splitting -/

/-- `Path(filename).name` -/
def pathName (filename : List Char) : List Char :=
  ((filename.splitOn '/').filter fun part => part ≠ [] ∧ part ≠ ['.']).getLast?.getD []

/-- Where the last dot of a name is, unless it is its first or its last character. -/
def suffixStart (name : List Char) : Option Nat :=
  let i := rfind '.' name
  if 0 < i ∧ i < name.length - 1 then some i.toNat else none

def pathSuffix (filename : List Char) : List Char :=
  let name := pathName filename
  (suffixStart name).elim [] fun i => name.drop i

def pathStem (filename : List Char) : List Char :=
  let name := pathName filename
  (suffixStart name).elim name fun i => name.take i

def splitFilename (filename : List Char) : List Char × List Char :=
  let ext := if pathSuffix filename ≠ [] then (pathSuffix filename).drop 1 else []
  let name := pathStem filename
  (name, ext)

/-! ## Cleaning -/

/-- `[<>:"|?*]` -/
def dangerous (c : Char) : Bool := ['<', '>', ':', '"', '|', '?', '*'].contains c

/-- The characters of `strip(" .")`. -/
def padding (c : Char) : Bool := [' ', '.'].contains c

/-- A character as `replace(old, "_")` leaves it. -/
def replaced (old c : Char) : Char := if c = old then '_' else c

def cleanFilename (filename : List Char) : List Char :=
  let filename := ((filename.filter (· ≠ '\x00')).map (replaced '/')).map (replaced '\\')
  let filename := filename.map fun c => if dangerous c then '_' else c
  let filename := trim padding filename
  if filename = [] then "unnamed".toList else filename

def truncateFilename (filename : List Char) (maxLength : Int) : List Char :=
  if maxLength < filename.length then
    let (name, ext) := splitFilename filename
    let maxNameLength := maxLength - ext.length - 1
    if ext ≠ [] then upTo name maxNameLength ++ '.' :: ext else upTo name maxLength
  else filename

def sanitizeFilename (filename : List Char) (maxLength : Int) : List Char :=
  truncateFilename (cleanFilename filename) maxLength

/-! ## Safe names -/

def forbidden (c : Char) : Bool := c = '\x00' || c = '/' || c = '\\' || dangerous c

/-- A name as cleaning leaves it. -/
structure Clean (name : List Char) : Prop where
  trimmed : Trimmed padding name
  allowed : ∀ c ∈ name, forbidden c = false

structure Safe (maxLength : Int) (name : List Char) : Prop where
  clean : Clean name
  bounded : name.length ≤ maxLength

/-- What is left of a filename before its characters are replaced. -/
def core (filename : List Char) : List Char := trim padding (filename.filter (· ≠ '\x00'))

/-- The text needs no cut, or it has an extension that leaves room for a stem, or it has none and
is not cut behind a blank. -/
def Fits (maxLength : Int) (text : List Char) : Prop :=
  text.length ≤ maxLength ∨ '.' ∈ text ∧ (afterLast '.' text).length + 2 ≤ maxLength ∨
    '.' ∉ text ∧ text[(maxLength - 1).toNat]? ≠ some ' '

/-! ## Characters -/

/-- A character as the replacements leave it. -/
def replacement (c : Char) : Char :=
  let c := replaced '\\' (replaced '/' c)
  if dangerous c then '_' else c

theorem replacement_cases (c : Char) :
    replacement c = '_' ∨ replacement c = c ∧ c ≠ '/' ∧ c ≠ '\\' ∧ dangerous c = false := by
  by_cases slash : c = '/'
  · subst slash
    exact .inl rfl
  by_cases backslash : c = '\\'
  · subst backslash
    exact .inl rfl
  have kept : replaced '\\' (replaced '/' c) = c := by
    rw [replaced, replaced, if_neg slash, if_neg backslash]
  rw [replacement, kept]
  cases danger : dangerous c with
  | true => exact .inl rfl
  | false => exact .inr ⟨rfl, slash, backslash, rfl⟩

theorem replacement_eq_iff {c d : Char} (kept : replacement d = d) (other : d ≠ '_') :
    replacement c = d ↔ c = d := by
  refine ⟨fun eq => ?_, fun eq => eq ▸ kept⟩
  obtain underscore | ⟨same, -⟩ := replacement_cases c
  · exact absurd (eq.symm.trans underscore) other
  · exact same.symm.trans eq

theorem padding_replacement (c : Char) : padding (replacement c) = padding c := by
  have blank := replacement_eq_iff (c := c) (d := ' ') rfl (by decide)
  have dot := replacement_eq_iff (c := c) (d := '.') rfl (by decide)
  simp [padding, blank, dot]

theorem forbidden_replacement {c : Char} (some_char : c ≠ '\x00') :
    forbidden (replacement c) = false := by
  obtain underscore | ⟨same, slash, backslash, danger⟩ := replacement_cases c
  · rw [underscore]
    rfl
  · rw [same]
    simp [forbidden, some_char, slash, backslash, danger]

theorem replacement_of_allowed {c : Char} (allowed : forbidden c = false) : replacement c = c := by
  obtain ⟨⟨⟨-, slash⟩, backslash⟩, danger⟩ := by simpa [forbidden] using allowed
  simp [replacement, replaced, slash, backslash, danger]

theorem cleanFilename_eq (filename : List Char) :
    cleanFilename filename =
      if core filename = [] then "unnamed".toList else (core filename).map replacement := by
  have all : ((fun c => if dangerous c then '_' else c) ∘ replaced '\\') ∘ replaced '/' =
      replacement := rfl
  have same : padding ∘ replacement = padding := funext padding_replacement
  rw [cleanFilename, List.map_map, List.map_map, all, trim_map, same, ← core]
  simp only [List.map_eq_nil_iff]

theorem clean_unnamed : Clean "unnamed".toList where
  trimmed := .of_dark (by decide) (by simp [padding])
  allowed := by simp [forbidden, dangerous]

theorem clean_cleanFilename (filename : List Char) : Clean (cleanFilename filename) := by
  rw [cleanFilename_eq]
  split
  · exact clean_unnamed
  · rename_i nonempty
    have trimmed : Trimmed padding (core filename) := trimmed_trim nonempty
    refine ⟨⟨by simpa using nonempty, fun c first => ?_, fun c final => ?_⟩, fun c mem => ?_⟩
    · rw [List.head?_map, Option.map_eq_some_iff] at first
      obtain ⟨d, first, rfl⟩ := first
      exact (padding_replacement d).trans (trimmed.head d first)
    · rw [List.getLast?_map, Option.map_eq_some_iff] at final
      obtain ⟨d, final, rfl⟩ := final
      exact (padding_replacement d).trans (trimmed.last d final)
    · obtain ⟨d, inside, rfl⟩ := List.mem_map.mp mem
      have present := List.mem_filter.mp (mem_of_mem_trim inside)
      exact forbidden_replacement (of_decide_eq_true present.2)

theorem cleanFilename_of_clean {name : List Char} (clean : Clean name) :
    cleanFilename name = name := by
  have present : name.filter (· ≠ '\x00') = name := by
    refine List.filter_eq_self.mpr fun c mem => decide_eq_true ?_
    rintro rfl
    exact absurd (clean.allowed _ mem) (by decide)
  have whole : core name = name := by rw [core, present, clean.trimmed.trim_eq]
  have kept : ∀ c ∈ name, replacement c = id c := fun c mem =>
    replacement_of_allowed (clean.allowed c mem)
  rw [cleanFilename_eq, whole, if_neg clean.trimmed.nonempty, List.map_congr_left kept, List.map_id]

/-! ## Extensions -/

theorem pathName_eq {name : List Char} (clean : Clean name) : pathName name = name := by
  have slash : '/' ∉ name := fun mem => absurd (clean.allowed _ mem) (by decide)
  have dot : name ≠ ['.'] := by
    rintro rfl
    exact absurd (clean.trimmed.head '.' rfl) (by decide)
  rw [pathName, List.splitOn_eq_singleton slash]
  simp [clean.trimmed.nonempty, dot]

theorem splitFilename_plain {name : List Char} (clean : Clean name) (plain : '.' ∉ name) :
    splitFilename name = (name, []) := by
  have none_found : suffixStart name = none := by
    rw [suffixStart, rfind, if_neg plain]
    rfl
  simp [splitFilename, pathStem, pathSuffix, pathName_eq clean, none_found]

theorem splitFilename_dotted {stem ext : List Char} (clean : Clean (stem ++ '.' :: ext))
    (last : '.' ∉ ext) :
    splitFilename (stem ++ '.' :: ext) = (stem, ext) ∧ stem ≠ [] ∧ ext ≠ [] := by
  have stem_nonempty : stem ≠ [] := by
    rintro rfl
    exact absurd (clean.trimmed.head '.' rfl) (by decide)
  have ext_nonempty : ext ≠ [] := by
    rintro rfl
    exact absurd (clean.trimmed.last '.' List.getLast?_concat) (by decide)
  have low := List.length_pos_of_ne_nil stem_nonempty
  have high := List.length_pos_of_ne_nil ext_nonempty
  have found : suffixStart (stem ++ '.' :: ext) = some stem.length := by
    have inside : (0 : Int) < stem.length ∧
        (stem.length : Int) < (stem ++ '.' :: ext).length - 1 := by
      rw [List.length_append, List.length_cons]
      omega
    rw [suffixStart, rfind_append_cons last, if_pos inside, Int.toNat_natCast]
  refine ⟨?_, stem_nonempty, ext_nonempty⟩
  simp [splitFilename, pathStem, pathSuffix, pathName_eq clean, found]

/-! ## Cuts -/

/-- A part of a clean name that starts as it does. -/
theorem Clean.part {name text : List Char} (clean : Clean name) (nonempty : text ≠ [])
    (start : text.head? = name.head?) (last : ∀ c, text.getLast? = some c → padding c = false)
    (inside : ∀ c ∈ text, c ∈ name) : Clean text where
  trimmed := ⟨nonempty, fun c first => clean.trimmed.head c (start ▸ first), last⟩
  allowed c mem := clean.allowed c (inside c mem)

theorem safe_plain_iff {name : List Char} (clean : Clean name) (plain : '.' ∉ name)
    {maxLength : Int} (pos : 0 < maxLength) (long : maxLength < name.length) :
    Safe maxLength (truncateFilename name maxLength) ↔
      name[(maxLength - 1).toNat]? ≠ some ' ' := by
  have cut : truncateFilename name maxLength = name.take maxLength.toNat := by
    rw [truncateFilename, if_pos long, splitFilename_plain clean plain]
    exact upTo_eq_take name (by omega)
  have some_last : maxLength.toNat ≠ 0 := by omega
  have index : (maxLength - 1).toNat = maxLength.toNat - 1 := by omega
  have inside : maxLength.toNat - 1 < name.length := by omega
  have last : (name.take maxLength.toNat).getLast? = some name[maxLength.toNat - 1] := by
    rw [List.getLast?_take, if_neg some_last, List.getElem?_eq_getElem inside]
    rfl
  rw [cut, index, List.getElem?_eq_getElem inside]
  constructor
  · intro safe blank
    have shade := safe.clean.trimmed.last _ last
    rw [Option.some.inj blank] at shade
    exact absurd shade (by decide)
  · intro dark
    refine ⟨clean.part ?_ ?_ ?_ fun c mem => List.mem_of_mem_take mem, ?_⟩
    · exact List.ne_nil_of_length_pos (by rw [List.length_take]; omega)
    · rw [List.head?_take, if_neg some_last]
    · intro c final
      rw [last] at final
      obtain rfl := Option.some.inj final
      have dot : name[maxLength.toNat - 1] ≠ '.' := fun eq => plain (eq ▸ List.getElem_mem inside)
      have blank : name[maxLength.toNat - 1] ≠ ' ' := fun eq => dark (congrArg some eq)
      simp [padding, dot, blank]
    · rw [List.length_take]
      omega

theorem safe_dotted_iff {stem ext : List Char} (clean : Clean (stem ++ '.' :: ext))
    (last : '.' ∉ ext) {maxLength : Int} (long : maxLength < (stem ++ '.' :: ext).length) :
    Safe maxLength (truncateFilename (stem ++ '.' :: ext) maxLength) ↔
      ext.length + 2 ≤ maxLength := by
  obtain ⟨split, stem_nonempty, ext_nonempty⟩ := splitFilename_dotted clean last
  have cut : truncateFilename (stem ++ '.' :: ext) maxLength =
      upTo stem (maxLength - ext.length - 1) ++ '.' :: ext := by
    rw [truncateFilename, if_pos long, split]
    exact if_pos ext_nonempty
  rw [cut]
  simp only [List.length_append, List.length_cons] at long
  constructor
  · intro safe
    by_contra narrow
    have bounded := safe.bounded
    simp only [List.length_append, List.length_cons] at bounded
    -- nothing is left of the stem, and the name starts with the dot
    have no_room : maxLength - ext.length - 1 = 0 := by omega
    have bare := safe.clean.trimmed.head '.'
    rw [no_room] at bare
    exact absurd (bare rfl) (by decide)
  · intro room
    have size : (upTo stem (maxLength - ext.length - 1)).length =
        min (maxLength - ext.length - 1).toNat stem.length := length_upTo stem (by omega)
    have kept : upTo stem (maxLength - ext.length - 1) ≠ [] :=
      List.ne_nil_of_length_pos (by rw [size]; omega)
    have start : (upTo stem (maxLength - ext.length - 1)).head? = stem.head? := by
      rw [upTo_eq_take _ (by omega), List.head?_take, if_neg (by omega)]
    have dotted : '.' :: ext ≠ [] := List.cons_ne_nil _ _
    refine ⟨clean.part (by simp) ?_ ?_ ?_, ?_⟩
    · rw [List.head?_append_of_ne_nil _ kept, List.head?_append_of_ne_nil _ stem_nonempty, start]
    · intro c final
      rw [List.getLast?_append_of_ne_nil _ dotted] at final
      apply clean.trimmed.last c
      rwa [List.getLast?_append_of_ne_nil _ dotted]
    · intro c mem
      obtain front | back := List.mem_append.mp mem
      · exact List.mem_append_left _ ((upTo_front ..).subset front)
      · exact List.mem_append_right _ back
    · simp only [List.length_append, List.length_cons, size]
      omega

theorem safe_truncateFilename_iff {name : List Char} (clean : Clean name) {maxLength : Int}
    (pos : 0 < maxLength) :
    Safe maxLength (truncateFilename name maxLength) ↔ Fits maxLength name := by
  by_cases short : (name.length : Int) ≤ maxLength
  · have whole : truncateFilename name maxLength = name := by
      rw [truncateFilename, if_neg (by omega)]
    rw [whole]
    exact ⟨fun _ => .inl short, fun _ => ⟨clean, short⟩⟩
  by_cases dot : '.' ∈ name
  · obtain ⟨stem, ext, rfl, last⟩ := exists_split_last dot
    rw [safe_dotted_iff clean last (by omega), Fits, afterLast_append_cons last]
    simp only [short, dot, not_true_eq_false, false_and, true_and, or_false, false_or]
  · rw [safe_plain_iff clean dot pos (by omega), Fits]
    simp only [short, dot, not_false_eq_true, false_and, true_and, false_or]

/-- A safe name is left as it is. -/
theorem sanitizeFilename_of_safe {name : List Char} {maxLength : Int}
    (safe : Safe maxLength name) : sanitizeFilename name maxLength = name := by
  have bounded := safe.bounded
  rw [sanitizeFilename, cleanFilename_of_clean safe.clean, truncateFilename, if_neg (by omega)]

theorem length_afterLast_map (text : List Char) (dot : '.' ∈ text) :
    (afterLast '.' (text.map replacement)).length = (afterLast '.' text).length := by
  obtain ⟨stem, ext, rfl, last⟩ := exists_split_last dot
  have kept : replacement '.' = '.' := rfl
  have last' : '.' ∉ ext.map replacement := by
    intro mem
    obtain ⟨c, mem, eq⟩ := List.mem_map.mp mem
    exact last ((replacement_eq_iff kept (by decide)).mp eq ▸ mem)
  rw [List.map_append, List.map_cons, kept, afterLast_append_cons last',
    afterLast_append_cons last, List.length_map]

/-- The replacements move no dot and no blank. -/
theorem fits_cleanFilename_iff (filename : List Char) {maxLength : Int} (room : 8 ≤ maxLength) :
    Fits maxLength (cleanFilename filename) ↔ Fits maxLength (core filename) := by
  rw [cleanFilename_eq]
  split
  · rename_i empty
    have unnamed : "unnamed".toList.length = 7 := rfl
    rw [empty]
    exact ⟨fun _ => .inl (by simp; omega), fun _ => .inl (by omega)⟩
  · have dots : '.' ∈ (core filename).map replacement ↔ '.' ∈ core filename := by
      simp [List.mem_map, replacement_eq_iff (d := '.') rfl (by decide)]
    have blanks : ((core filename).map replacement)[(maxLength - 1).toNat]? = some ' ' ↔
        (core filename)[(maxLength - 1).toNat]? = some ' ' := by
      simp [Option.map_eq_some_iff, replacement_eq_iff (d := ' ') rfl (by decide)]
    rw [Fits, Fits, List.length_map, dots, ne_eq, blanks]
    by_cases dot : '.' ∈ core filename
    · rw [length_afterLast_map _ dot]
    · simp only [dot, false_and]

/-! ## Sanitized names -/

/-- A name is sanitized for good exactly if what is left of it fits. -/
theorem sanitizeFilename_iff (filename : List Char) {maxLength : Int} (room : 8 ≤ maxLength) :
    Safe maxLength (sanitizeFilename filename maxLength) ∧
        sanitizeFilename (sanitizeFilename filename maxLength) maxLength =
          sanitizeFilename filename maxLength ↔
      Fits maxLength (core filename) := by
  rw [← fits_cleanFilename_iff filename room,
    ← safe_truncateFilename_iff (clean_cleanFilename filename) (by omega)]
  exact ⟨fun h => h.1, fun safe => ⟨safe, sanitizeFilename_of_safe safe⟩⟩

theorem sanitizeFilename_iff_report :
    (8 : Int) ≤ 255 ∧ (Safe 255 (sanitizeFilename "a/b.pdf".toList 255) ∧
        sanitizeFilename (sanitizeFilename "a/b.pdf".toList 255) 255 =
          sanitizeFilename "a/b.pdf".toList 255 ↔
      Fits 255 (core "a/b.pdf".toList)) :=
  ⟨by decide, sanitizeFilename_iff "a/b.pdf".toList (by decide)⟩

theorem sanitizeFilename_long_extension :
    sanitizeFilename "a.bbbbbbbb".toList 8 = ".bbbbbbbb".toList ∧
      ¬Safe 8 (sanitizeFilename "a.bbbbbbbb".toList 8) := by
  have result : sanitizeFilename "a.bbbbbbbb".toList 8 = ".bbbbbbbb".toList := by decide
  refine ⟨result, fun safe => ?_⟩
  rw [result] at safe
  exact absurd safe.bounded (by decide)

end GigaPdf.FileNames
