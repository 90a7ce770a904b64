import GigaPdf.Lib.Json
import GigaPdf.Lib.Substitution
import GigaPdf.Storage.Erasure

/-!
# Mentions of an erased account

`_scrub` and the search of `_scrub_mentions`. Rows are found in the text of their columns, and the
value of a JSON column is then changed string by string. `fold` is the case mapping that the
search, the pattern and the claims of equality up to case share.
-/

namespace GigaPdf

open Substitution

/-- A column of type `JSON`: the text that is stored, and the value that is read from it. -/
structure JsonColumn where
  text : List Char
  value : Json

/-- The columns of a row that may quote a user. `extraData` may be `NULL`. -/
structure Quoted where
  texts : List (List Char)
  extraData : Option JsonColumn

/-- `NULL` is read as `None`. -/
def Quoted.value (q : Quoted) : Json := (q.extraData.map (·.value)).getD .null

def erasedUser : List Char := ERASED_USER.toList

section
variable (fold : Char → Char) (needles : List (List Char))

def scrubText (text : List Char) : List Char := sub fold needles erasedUser text

def scrub (value : Json) : Json := value.mapStrings (scrubText fold needles)

namespace Quoted

/-- The search finds the row in one of its columns. -/
def Found (q : Quoted) : Prop :=
  ∃ text ∈ q.texts ++ (q.extraData.map (·.text)).toList, Mentions fold needles text

instance (q : Quoted) : Decidable (q.Found fold needles) :=
  inferInstanceAs (Decidable (∃ _ ∈ _, _))

/-- A value is written as `json.dumps` spells it, and `None` as `null`. -/
def scrub (q : Quoted) : Quoted where
  texts := q.texts.map (scrubText fold needles)
  extraData :=
    let value := GigaPdf.scrub fold needles q.value
    some ⟨value.dumps, value⟩

def scrubMentions (q : Quoted) : Quoted := if q.Found fold needles then q.scrub fold needles else q

/-! ## What is promised -/

/-- No column mentions the user, in a text, a value or a key. -/
def Forgets (q : Quoted) : Prop :=
  (∀ text ∈ q.texts, ¬Mentions fold needles text) ∧
    (∀ text ∈ q.value.strings, ¬Mentions fold needles text) ∧
    ∀ key ∈ q.value.keys, ¬Mentions fold needles key

/-- Whatever did not mention the user is still there. -/
def Keeps (q q' : Quoted) : Prop :=
  List.Forall₂ (fun text text' => ¬Mentions fold needles text → text' = text) q.texts q'.texts ∧
    ∀ path value, q.value.at? path = some value →
      (∀ text ∈ value.strings, ¬Mentions fold needles text) → q'.value.at? path = some value

theorem keeps_scrubMentions (q : Quoted) : q.Keeps fold needles (q.scrubMentions fold needles) := by
  unfold scrubMentions
  split
  · refine ⟨?_, fun path value found silent => ?_⟩
    · rw [scrub, List.forall₂_map_right_iff]
      exact List.forall₂_same.mpr fun text _ silent => sub_of_not_mentions silent
    · have same : GigaPdf.scrub fold needles value = value :=
        Json.mapStrings_eq_self fun text mem => sub_of_not_mentions (silent text mem)
      simp only [scrub, Quoted.value, Option.map_some, Option.getD_some] at found ⊢
      rw [GigaPdf.scrub, Json.at?_mapStrings, found, Option.map_some, Option.some.injEq]
      exact same
  · exact ⟨List.forall₂_same.mpr fun _ _ _ => rfl, fun _ _ found _ => found⟩

end Quoted

/-! ## The JSON text of a scrubbed value -/

/-- A string in JSON text, in which the finds stay what they are. -/
def quotePieces (p : List (Option Char)) : List (Option Char) :=
  some '"' :: (p.flatMap (fun piece => piece.elim [none] fun c => (Json.escape c).map some) ++
    [some '"'])

/-- The JSON text of a value, with `none` for each find in its strings. -/
def jsonPieces (value : Json) : List (Option Char) :=
  value.render (List.map some) fun text => quotePieces (pieces fold needles text)

end

theorem erasedUser_unescaped : erasedUser.flatMap Json.escape = erasedUser := by decide

theorem reading_quotePieces (p : List (Option Char)) :
    reading erasedUser (quotePieces p) = Json.quote (reading erasedUser p) := by
  rw [quotePieces, Json.quote, reading_some, reading_append]
  refine congrArg (fun text => '"' :: (text ++ ['"'])) ?_
  induction p with
  | nil => rfl
  | cons piece p ih =>
    rw [List.flatMap_cons, reading_append, ih]
    cases piece with
    | none =>
      rw [reading_none, List.flatMap_append, erasedUser_unescaped]
      rfl
    | some c =>
      rw [reading_some, List.flatMap_cons]
      exact congrArg (· ++ _) (reading_map_some _)

/-- The update writes the text with the placeholder for each find. -/
theorem reading_jsonPieces (fold : Char → Char) (needles : List (List Char)) (value : Json) :
    reading erasedUser (jsonPieces fold needles value) = (scrub fold needles value).dumps := by
  rw [scrub, Json.dumps, Json.render_mapStrings, reading, jsonPieces, Json.flatMap_render]
  congr 1
  · funext text
    exact reading_map_some text
  · funext text
    exact reading_quotePieces _

/-! ## When a row is scrubbed clean -/

section
variable (fold : Char → Char) (needles : List (List Char)) (userId : List Char)

/-- No key mentions the user; the search finds a row that mentions the user in a value; and what
it finds is neither completed by a placeholder nor stands in the JSON text outside the strings. -/
structure Quoted.Scrubbable (q : Quoted) : Prop where
  keys : ∀ key ∈ q.value.keys, ¬Mentions fold needles key
  found : (∃ text ∈ q.value.strings, Mentions fold needles text) → q.Found fold needles
  completed : q.Found fold needles → ∀ text ∈ q.texts ++ q.value.strings, ∀ needle ∈ needles,
    ¬Completed fold erasedUser needle (pieces fold needles text)
  json : q.Found fold needles → ¬Stands fold userId (jsonPieces fold needles q.value) ∧
    ¬Completed fold erasedUser userId (jsonPieces fold needles q.value)

variable {fold needles userId}

theorem mentions_scrubText_iff (longestFirst : needles.Pairwise fun a b => b.length ≤ a.length)
    (text : List Char) : Mentions fold needles (scrubText fold needles text) ↔
      ∃ needle ∈ needles, Completed fold erasedUser needle (pieces fold needles text) :=
  exists_congr fun _ => and_congr_right fun mem =>
    occurs_sub_iff longestFirst (by decide) mem

theorem mentions_singleton (text : List Char) :
    Mentions fold [userId] text ↔ Occurs fold userId text := by
  simp [Mentions]

theorem not_mentions_scrubText_iff
    (longestFirst : needles.Pairwise fun a b => b.length ≤ a.length) (text : List Char) :
    ¬Mentions fold needles (scrubText fold needles text) ↔
      ∀ needle ∈ needles, ¬Completed fold erasedUser needle (pieces fold needles text) := by
  rw [mentions_scrubText_iff longestFirst]
  simp only [not_exists, not_and]

theorem occurs_dumps_scrub_iff (value : Json) :
    Occurs fold userId (scrub fold needles value).dumps ↔
      Stands fold userId (jsonPieces fold needles value) ∨
        Completed fold erasedUser userId (jsonPieces fold needles value) := by
  rw [← reading_jsonPieces]
  exact occurs_reading_iff (by decide)

namespace Quoted

theorem strings_scrub (q : Quoted) :
    (q.scrub fold needles).value.strings = q.value.strings.map (scrubText fold needles) :=
  Json.strings_mapStrings _

theorem keys_scrub (q : Quoted) : (q.scrub fold needles).value.keys = q.value.keys :=
  Json.keys_mapStrings _

/-- A row that the search has found. -/
theorem scrub_iff (longestFirst : needles.Pairwise fun a b => b.length ≤ a.length)
    (mem : userId ∈ needles) {q : Quoted} (found : q.Found fold needles) :
    ((q.scrub fold needles).Forgets fold needles ∧ ¬(q.scrub fold needles).Found fold [userId]) ↔
      q.Scrubbable fold needles userId := by
  have clean (text : List Char) := @not_mentions_scrubText_iff fold needles longestFirst text
  constructor
  · rintro ⟨⟨texts, values, names⟩, lost⟩
    rw [strings_scrub] at values
    rw [keys_scrub] at names
    refine ⟨names, fun _ => found, fun _ text either => ?_, fun _ => ?_⟩
    · refine (clean text).mp ?_
      obtain inTexts | inValues := List.mem_append.mp either
      · exact texts _ (List.mem_map_of_mem inTexts)
      · exact values _ (List.mem_map_of_mem inValues)
    · rw [← not_or, ← occurs_dumps_scrub_iff, ← mentions_singleton]
      exact fun again => lost ⟨_, List.mem_append_right _ List.mem_cons_self, again⟩
  · rintro ⟨names, -, completed, json⟩
    have texts : ∀ text ∈ q.texts, ¬Mentions fold needles (scrubText fold needles text) :=
      fun text here => (clean text).mpr (completed found text (List.mem_append_left _ here))
    refine ⟨⟨List.forall_mem_map.mpr texts, ?_, ?_⟩, ?_⟩
    · rw [strings_scrub]
      exact List.forall_mem_map.mpr fun text here =>
        (clean text).mpr (completed found text (List.mem_append_right _ here))
    · rw [keys_scrub]
      exact names
    · rintro ⟨text, here, again⟩
      rw [mentions_singleton] at again
      obtain inTexts | inJson := List.mem_append.mp here
      · obtain ⟨old, was, rfl⟩ := List.mem_map.mp inTexts
        exact texts old was ⟨userId, mem, again⟩
      · obtain rfl : text = (GigaPdf.scrub fold needles q.value).dumps := by
          simpa [scrub] using inJson
        obtain stands | completed := occurs_dumps_scrub_iff _ |>.mp again
        · exact (json found).1 stands
        · exact (json found).2 completed

/-- A row that it has not found. -/
theorem lost_iff (mem : userId ∈ needles) {q : Quoted} (lost : ¬q.Found fold needles) :
    (q.Forgets fold needles ∧ ¬q.Found fold [userId]) ↔ q.Scrubbable fold needles userId := by
  have silent : ∀ text ∈ q.texts, ¬Mentions fold needles text :=
    fun text here mentions => lost ⟨text, List.mem_append_left _ here, mentions⟩
  constructor
  · rintro ⟨⟨-, values, names⟩, -⟩
    exact ⟨names, fun ⟨text, here, mentions⟩ => absurd mentions (values text here),
      fun found => absurd found lost, fun found => absurd found lost⟩
  · rintro ⟨names, found, -, -⟩
    refine ⟨⟨silent, fun text here mentions => lost (found ⟨text, here, mentions⟩), names⟩, ?_⟩
    rintro ⟨text, here, again⟩
    exact lost ⟨text, here, userId, mem, (mentions_singleton text).mp again⟩

/-- A row is clean, and no search for the id finds it again, exactly when it can be scrubbed. -/
theorem scrubMentions_iff (longestFirst : needles.Pairwise fun a b => b.length ≤ a.length)
    (mem : userId ∈ needles) (q : Quoted) :
    ((q.scrubMentions fold needles).Forgets fold needles ∧
        ¬(q.scrubMentions fold needles).Found fold [userId]) ↔
      q.Scrubbable fold needles userId := by
  unfold scrubMentions
  split
  · next found => exact scrub_iff longestFirst mem found
  · next lost => exact lost_iff mem lost

end Quoted

end

end GigaPdf
