import Mathlib.Data.List.Basic

/-!
# JSON values

Values of any nesting, the strings and keys in them, and their text. Numbers, Booleans and `null`
are literals, which are kept as they are spelled.
-/

inductive Json where
  | literal (text : List Char)
  | string (text : List Char)
  | list (items : List Json)
  | object (members : List (List Char × Json))

namespace Json

def null : Json := .literal "null".toList

@[elab_as_elim]
theorem induct {P : Json → Prop} (literal : ∀ text, P (.literal text))
    (string : ∀ text, P (.string text))
    (list : ∀ items, (∀ j ∈ items, P j) → P (.list items))
    (object : ∀ members, (∀ m ∈ members, P m.2) → P (.object members)) (j : Json) : P j :=
  @Json.rec P (fun items => ∀ j ∈ items, P j) (fun members => ∀ m ∈ members, P m.2)
    (fun m => P m.2) literal string list object
    (by simp) (fun _ _ first rest => List.forall_mem_cons.mpr ⟨first, rest⟩)
    (by simp) (fun _ _ first rest => List.forall_mem_cons.mpr ⟨first, rest⟩)
    (fun _ _ value => value) j

/-! ## Strings and keys -/

mutual

/-- Every string value, at any depth. -/
def strings : Json → List (List Char)
  | .literal _ => []
  | .string text => [text]
  | .list items => itemStrings items
  | .object members => memberStrings members

def itemStrings : List Json → List (List Char)
  | [] => []
  | j :: items => strings j ++ itemStrings items

def memberStrings : List (List Char × Json) → List (List Char)
  | [] => []
  | (_, j) :: members => strings j ++ memberStrings members

end

mutual

/-- Every key, at any depth. -/
def keys : Json → List (List Char)
  | .literal _ | .string _ => []
  | .list items => itemKeys items
  | .object members => memberKeys members

def itemKeys : List Json → List (List Char)
  | [] => []
  | j :: items => keys j ++ itemKeys items

def memberKeys : List (List Char × Json) → List (List Char)
  | [] => []
  | (key, j) :: members => key :: (keys j ++ memberKeys members)

end

mutual

/-- Change the string values, and nothing else. -/
def mapStrings (f : List Char → List Char) : Json → Json
  | .literal text => .literal text
  | .string text => .string (f text)
  | .list items => .list (mapItems f items)
  | .object members => .object (mapMembers f members)

def mapItems (f : List Char → List Char) : List Json → List Json
  | [] => []
  | j :: items => mapStrings f j :: mapItems f items

def mapMembers (f : List Char → List Char) : List (List Char × Json) → List (List Char × Json)
  | [] => []
  | (key, j) :: members => (key, mapStrings f j) :: mapMembers f members

end

/-! ## Text -/

def hexDigits (n : Nat) : List Char :=
  [n / 4096 % 16, n / 256 % 16, n / 16 % 16, n % 16].map Nat.digitChar

def unicodeEscape (n : Nat) : List Char := '\\' :: 'u' :: hexDigits n

/-- How `json.dumps` writes a character in a string: in ASCII, with two escapes for a character
above the basic plane. -/
def escape (c : Char) : List Char :=
  if c = '"' then ['\\', '"']
  else if c = '\\' then ['\\', '\\']
  else if c = '\n' then ['\\', 'n']
  else if c = '\r' then ['\\', 'r']
  else if c = '\t' then ['\\', 't']
  else if c.toNat = 8 then ['\\', 'b']
  else if c.toNat = 12 then ['\\', 'f']
  else if 32 ≤ c.toNat ∧ c.toNat ≤ 126 then [c]
  else if c.toNat < 65536 then unicodeEscape c.toNat
  else
    unicodeEscape (55296 + (c.toNat - 65536) / 1024) ++
      unicodeEscape (56320 + (c.toNat - 65536) % 1024)

def quote (text : List Char) : List Char := '"' :: (text.flatMap escape ++ ['"'])

section
variable {β γ : Type*} (plain quoted : List Char → List β)

mutual

/-- The text of a value: `quoted` gives the text of a string value, `plain` what is around. -/
def render : Json → List β
  | .literal text => plain text
  | .string text => quoted text
  | .list items => plain ['['] ++ renderItems items ++ plain [']']
  | .object members => plain ['\x7b'] ++ renderMembers members ++ plain ['\x7d']

def renderItems : List Json → List β
  | [] => []
  | [j] => render j
  | j :: items => render j ++ plain [',', ' '] ++ renderItems items

def renderMembers : List (List Char × Json) → List β
  | [] => []
  | [(key, j)] => plain (quote key ++ [':', ' ']) ++ render j
  | (key, j) :: members =>
    plain (quote key ++ [':', ' ']) ++ render j ++ plain [',', ' '] ++ renderMembers members

end

end

/-- `json.dumps` -/
def dumps (j : Json) : List Char := render id quote j

/-! ## Places -/

inductive Step where
  | index (i : Nat)
  | key (text : List Char)

def child : Json → Step → Option Json
  | .list items, .index i => items[i]?
  | .object members, .key text => (members.find? fun m => m.1 = text).map Prod.snd
  | _, _ => none

/-- The value at a place. -/
def at? (j : Json) (path : List Step) : Option Json := path.foldlM child j

/-! ## What a change of the strings leaves -/

section
variable {f : List Char → List Char}

theorem mapItems_eq (items : List Json) : mapItems f items = items.map (mapStrings f) := by
  induction items with
  | nil => rfl
  | cons j items ih => rw [mapItems, ih, List.map_cons]

theorem mapMembers_eq (members : List (List Char × Json)) :
    mapMembers f members = members.map fun m => (m.1, mapStrings f m.2) := by
  induction members with
  | nil => rfl
  | cons m members ih => rw [mapMembers, ih, List.map_cons]

theorem itemStrings_eq (items : List Json) : itemStrings items = items.flatMap strings := by
  induction items with
  | nil => rfl
  | cons j items ih => rw [itemStrings, ih, List.flatMap_cons]

theorem memberStrings_eq (members : List (List Char × Json)) :
    memberStrings members = members.flatMap fun m => strings m.2 := by
  induction members with
  | nil => rfl
  | cons m members ih => rw [memberStrings, ih, List.flatMap_cons]

theorem strings_mapStrings (j : Json) : (j.mapStrings f).strings = j.strings.map f := by
  induction j using induct with
  | literal text => rfl
  | string text => rfl
  | list items ih =>
    rw [mapStrings, strings, strings, itemStrings_eq, itemStrings_eq, mapItems_eq,
      List.flatMap_map, List.map_flatMap]
    exact List.flatMap_congr ih
  | object members ih =>
    rw [mapStrings, strings, strings, memberStrings_eq, memberStrings_eq, mapMembers_eq,
      List.flatMap_map, List.map_flatMap]
    exact List.flatMap_congr ih

theorem itemKeys_eq (items : List Json) : itemKeys items = items.flatMap keys := by
  induction items with
  | nil => rfl
  | cons j items ih => rw [itemKeys, ih, List.flatMap_cons]

theorem memberKeys_eq (members : List (List Char × Json)) :
    memberKeys members = members.flatMap fun m => m.1 :: keys m.2 := by
  induction members with
  | nil => rfl
  | cons m members ih => rw [memberKeys, ih, List.flatMap_cons, List.cons_append]

theorem keys_mapStrings (j : Json) : (j.mapStrings f).keys = j.keys := by
  induction j using induct with
  | literal text => rfl
  | string text => rfl
  | list items ih =>
    rw [mapStrings, keys, keys, itemKeys_eq, itemKeys_eq, mapItems_eq, List.flatMap_map]
    exact List.flatMap_congr ih
  | object members ih =>
    rw [mapStrings, keys, keys, memberKeys_eq, memberKeys_eq, mapMembers_eq, List.flatMap_map]
    exact List.flatMap_congr fun m mem => congrArg (m.1 :: ·) (ih m mem)

/-- A value whose strings stay is left as it is. -/
theorem mapStrings_eq_self {j : Json} (same : ∀ text ∈ j.strings, f text = text) :
    j.mapStrings f = j := by
  induction j using induct with
  | literal text => rfl
  | string text => exact congrArg Json.string (same text List.mem_cons_self)
  | list items ih =>
    rw [strings, itemStrings_eq] at same
    rw [mapStrings, mapItems_eq]
    refine congrArg Json.list ((List.map_congr_left fun j mem => ?_).trans (List.map_id items))
    exact ih j mem fun text found => same text (List.mem_flatMap.mpr ⟨j, mem, found⟩)
  | object members ih =>
    rw [strings, memberStrings_eq] at same
    rw [mapStrings, mapMembers_eq]
    refine congrArg Json.object
      ((List.map_congr_left fun m mem => ?_).trans (List.map_id members))
    exact Prod.ext rfl
      (ih m mem fun text found => same text (List.mem_flatMap.mpr ⟨m, mem, found⟩))

theorem child_mapStrings (j : Json) (step : Step) :
    (j.mapStrings f).child step = (j.child step).map (mapStrings f) := by
  cases j <;> cases step
  case list.index items i =>
    simp only [mapStrings, child, mapItems_eq, List.getElem?_map]
  case object.key members text =>
    simp only [mapStrings, child, mapMembers_eq, List.find?_map, Option.map_map]
    rfl
  all_goals rfl

theorem at?_mapStrings (j : Json) (path : List Step) :
    (j.mapStrings f).at? path = (j.at? path).map (mapStrings f) := by
  induction path generalizing j with
  | nil => rfl
  | cons step path ih =>
    simp only [at?, List.foldlM_cons, child_mapStrings, Option.bind_eq_bind] at ih ⊢
    cases j.child step with
    | none => rfl
    | some next => exact ih next

end

section
variable {β γ : Type*} {plain quoted : List Char → List β}

/-- The text of a value, with each of its parts read in another way. -/
theorem flatMap_render (g : β → List γ) (j : Json) : (render plain quoted j).flatMap g =
    render (fun text => (plain text).flatMap g) (fun text => (quoted text).flatMap g) j := by
  induction j using induct with
  | literal text => rfl
  | string text => rfl
  | list items ih =>
    simp only [render, List.flatMap_append]
    suffices (renderItems plain quoted items).flatMap g = renderItems _ _ items by rw [this]
    induction items with
    | nil => rfl
    | cons j items next =>
      obtain ⟨first, rest⟩ := List.forall_mem_cons.mp ih
      cases items with
      | nil => simpa only [renderItems] using first
      | cons j' items =>
        simp only [renderItems, List.flatMap_append, first] at next ⊢
        rw [next rest]
  | object members ih =>
    simp only [render, List.flatMap_append]
    suffices (renderMembers plain quoted members).flatMap g = renderMembers _ _ members by
      rw [this]
    induction members with
    | nil => rfl
    | cons m members next =>
      obtain ⟨first, rest⟩ := List.forall_mem_cons.mp ih
      cases members with
      | nil => simp only [renderMembers, List.flatMap_append, first]
      | cons m' members =>
        simp only [renderMembers, List.flatMap_append, first] at next ⊢
        rw [next rest]

theorem render_mapStrings (f : List Char → List Char) (j : Json) :
    render plain quoted (j.mapStrings f) = render plain (fun text => quoted (f text)) j := by
  induction j using induct with
  | literal text => rfl
  | string text => rfl
  | list items ih =>
    simp only [mapStrings, render, mapItems_eq]
    suffices renderItems plain quoted (items.map (mapStrings f)) = renderItems _ _ items by
      rw [this]
    induction items with
    | nil => rfl
    | cons j items next =>
      obtain ⟨first, rest⟩ := List.forall_mem_cons.mp ih
      cases items with
      | nil => simpa only [List.map_cons, List.map_nil, renderItems] using first
      | cons j' items =>
        simp only [List.map_cons, renderItems, first] at next ⊢
        rw [next rest]
  | object members ih =>
    simp only [mapStrings, render, mapMembers_eq]
    suffices renderMembers plain quoted (members.map fun m => (m.1, m.2.mapStrings f)) =
        renderMembers _ _ members by rw [this]
    induction members with
    | nil => rfl
    | cons m members next =>
      obtain ⟨first, rest⟩ := List.forall_mem_cons.mp ih
      cases members with
      | nil => simp only [List.map_cons, List.map_nil, renderMembers, first]
      | cons m' members =>
        simp only [List.map_cons, renderMembers, first] at next ⊢
        rw [next rest]

end

end Json
