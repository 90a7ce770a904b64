import GigaPdf.Engine.Outline
import GigaPdf.Lib.Chains
import Mathlib.Data.List.Induction

/-!
# Editing an outline

`outline-edit.ts` edits a bookmark tree as a flat list with levels, and the tree is made again when
it is saved. What the list shows is what is saved when no level is negative, the first one is 0
and none exceeds the one before by more than 1; a removal, a move and an outdent can break this.
-/

namespace GigaPdf

open Chains Forests

/-- A node of the tree without its children. -/
structure BookmarkNode where
  bookmarkId : String
  title : Option String
  destination : Option BookmarkDestination
  style : BookmarkStyle
deriving DecidableEq

structure FlatBookmark where
  id : String
  title : String
  page : Int
  level : Int
deriving DecidableEq

/-- `clock` has the time, in base 36, at which the n-th id is made. -/
def nextId (clock : Nat → String) (syntheticCounter : Nat) : String :=
  "new-" ++ toString syntheticCounter ++ "-" ++ clock syntheticCounter

/-- The flat entry of a node, and the counter after it. -/
def flatBookmark (clock : Nat → String) (counter level : Nat) (node : BookmarkNode) :
    FlatBookmark × Nat :=
  let fresh := node.bookmarkId = ""
  (⟨if fresh then nextId clock (counter + 1) else node.bookmarkId, node.title.getD "",
    (node.destination.map BookmarkDestination.pageNumber).getD 1, level⟩,
    if fresh then counter + 1 else counter)

mutual

def nodeToFlat (clock : Nat → String) (counter level : Nat) :
    Forests.Tree BookmarkNode → List FlatBookmark × Nat
  | .node node children =>
    let entry := flatBookmark clock counter level node
    let below := treeToFlat clock entry.2 (level + 1) children
    (entry.1 :: below.1, below.2)

def treeToFlat (clock : Nat → String) (counter level : Nat) :
    Forest BookmarkNode → List FlatBookmark × Nat
  | [] => ([], counter)
  | t :: ts =>
    let first := nodeToFlat clock counter level t
    let rest := treeToFlat clock first.2 level ts
    (first.1 ++ rest.1, rest.2)

end

/-- The node that is saved for an entry. -/
def FlatBookmark.node (item : FlatBookmark) : BookmarkNode where
  bookmarkId := item.id
  title := some item.title
  destination := some { pageNumber := item.page, position := none, zoom := none }
  style := { bold := false, italic := false, color := "#000000" }

/-- The stack has its top first; a node is referred to by its path, which later nodes do not
change. -/
structure Rebuild where
  roots : Forest BookmarkNode
  stack : List (List Nat × Int)

def Rebuild.add (build : Rebuild) (item : FlatBookmark) : Rebuild :=
  let level := max 0 item.level
  let node := Forests.Tree.node item.node []
  match build.stack.dropWhile fun e => level ≤ e.2 with
  | [] => { roots := build.roots ++ [node], stack := [([build.roots.length], 0)] }
  | (parent, parentLevel) :: stack =>
    { roots := appendChild parent node build.roots
      stack := (parent ++ [(childrenAt parent build.roots).length], parentLevel + 1) ::
        (parent, parentLevel) :: stack }

def flatToTree (flat : List FlatBookmark) : Forest BookmarkNode :=
  (flat.foldl Rebuild.add ⟨[], []⟩).roots

/-! ## Flattening -/

/-- The entries of a preorder list, with new ids in their order. -/
def flatEntries (clock : Nat → String) : Nat → List (Nat × BookmarkNode) → List FlatBookmark × Nat
  | counter, [] => ([], counter)
  | counter, (level, node) :: entries =>
    let entry := flatBookmark clock counter level node
    let rest := flatEntries clock entry.2 entries
    (entry.1 :: rest.1, rest.2)

theorem flatEntries_append (clock : Nat → String) (counter : Nat)
    (as bs : List (Nat × BookmarkNode)) :
    flatEntries clock counter (as ++ bs) =
      ((flatEntries clock counter as).1 ++
          (flatEntries clock (flatEntries clock counter as).2 bs).1,
        (flatEntries clock (flatEntries clock counter as).2 bs).2) := by
  induction as generalizing counter with
  | nil => rfl
  | cons a as ih => simp only [List.cons_append, flatEntries, ih]

theorem treeToFlat_eq (clock : Nat → String) (counter level : Nat) (ts : Forest BookmarkNode) :
    treeToFlat clock counter level ts = flatEntries clock counter (preorder level ts) := by
  induction ts using forest_induction generalizing counter level with
  | nil => rfl
  | cons node ts us children behind =>
    rw [preorder_cons]
    simp only [Forests.Tree.label_node, Forests.Tree.children_node, flatEntries, flatEntries_append,
      ← children, ← behind]
    rfl

theorem levels_flatEntries (clock : Nat → String) (counter : Nat)
    (entries : List (Nat × BookmarkNode)) :
    (flatEntries clock counter entries).1.map FlatBookmark.level =
      entries.map fun e => (e.1 : Int) := by
  induction entries generalizing counter with
  | nil => rfl
  | cons e entries ih =>
    rw [flatEntries, List.map_cons, List.map_cons, ih]
    rfl

/-- Title and page as the editor shows them. -/
def BookmarkNode.shown (node : BookmarkNode) : String × Int :=
  (node.title.getD "", (node.destination.map BookmarkDestination.pageNumber).getD 1)

theorem shown_flatEntries (clock : Nat → String) (counter : Nat)
    (entries : List (Nat × BookmarkNode)) :
    (flatEntries clock counter entries).1.map (fun b => (b.title, b.page)) =
      entries.map fun e => e.2.shown := by
  induction entries generalizing counter with
  | nil => rfl
  | cons e entries ih =>
    rw [flatEntries, List.map_cons, List.map_cons, ih]
    rfl

/-- The id is kept when there is one. -/
theorem ids_flatEntries (clock : Nat → String) (counter : Nat)
    (entries : List (Nat × BookmarkNode)) :
    List.Forall₂ (fun e b => e.2.bookmarkId ≠ "" → b.id = e.2.bookmarkId) entries
      (flatEntries clock counter entries).1 := by
  induction entries generalizing counter with
  | nil => exact .nil
  | cons e entries ih =>
    apply List.Forall₂.cons _ (ih _)
    intro known
    exact if_neg known

/-! ## Rebuilding -/

/-- The nodes on a path, the deepest first, with their levels. -/
def spine (path : List Nat) : List (List Nat × Int) :=
  ((List.range path.length).map fun k => (path.take (k + 1), (k : Int))).reverse

theorem spine_concat (path : List Nat) (i : Nat) :
    spine (path ++ [i]) = (path ++ [i], (path.length : Int)) :: spine path := by
  have whole : (path ++ [i]).take (path.length + 1) = path ++ [i] := by
    apply List.take_of_length_le
    simp
  have before : ∀ k ∈ List.range path.length,
      ((path ++ [i]).take (k + 1), (k : Int)) = (path.take (k + 1), (k : Int)) := by
    intro k mem
    have inside := List.mem_range.mp mem
    rw [List.take_append_of_le_length (by omega)]
  rw [spine, List.length_append, List.length_singleton, List.range_succ, List.map_append,
    List.reverse_append, List.map_singleton, whole, spine, List.map_congr_left before]
  rfl

/-- What stays on the stack for a level is the path down to it. -/
theorem dropWhile_spine (path : List Nat) (level : Nat) :
    (spine path).dropWhile (fun e => (level : Int) ≤ e.2) = spine (path.take level) := by
  induction path using List.reverseRecOn with
  | nil => rw [List.take_nil]; rfl
  | append_singleton path i ih =>
    rw [spine_concat, List.dropWhile_cons]
    by_cases deep : level ≤ path.length
    · rw [if_pos (by simpa using deep), ih, List.take_append_of_le_length deep]
    · have long : (path ++ [i]).length ≤ level := by
        rw [List.length_append, List.length_singleton]
        omega
      rw [if_neg (by simpa using deep), List.take_of_length_le long, spine_concat]

/-- The stack has the nodes on one rightmost path. -/
def Open (build : Rebuild) (path : List Nat) : Prop :=
  Rightmost path build.roots ∧ build.stack = spine path

theorem add_of_stack {build : Rebuild} {path : List Nat} {item : FlatBookmark}
    (left : build.stack.dropWhile (fun e => max 0 item.level ≤ e.2) = spine path) :
    build.add item =
      { roots := appendChild path (.node item.node []) build.roots
        stack := spine (path ++ [(childrenAt path build.roots).length]) } := by
  rw [Rebuild.add]
  simp only [left]
  induction path using List.reverseRecOn with
  | nil => rfl
  | append_singleton path i _ =>
    rw [spine_concat, spine_concat (path ++ [i]), spine_concat path]
    simp

/-- An entry comes last in the preorder list, at the nearest level that can follow. -/
theorem Open.add {build : Rebuild} {path : List Nat} (stack : Open build path)
    (item : FlatBookmark) :
    ∃ path', path'.length = min item.level.toNat path.length + 1 ∧ Open (build.add item) path' ∧
      preorder 0 (build.add item).roots =
        preorder 0 build.roots ++ [(min item.level.toNat path.length, item.node)] := by
  have asked : max 0 item.level = (item.level.toNat : Int) := by omega
  have left : build.stack.dropWhile (fun e => max 0 item.level ≤ e.2) =
      spine (path.take item.level.toNat) := by
    rw [stack.2, asked, dropWhile_spine]
  have rightmost := stack.1.take item.level.toNat
  have depth : (path.take item.level.toNat).length = min item.level.toNat path.length :=
    List.length_take
  rw [add_of_stack left]
  refine ⟨path.take item.level.toNat ++
    [(childrenAt (path.take item.level.toNat) build.roots).length], ?_, ⟨?_, rfl⟩, ?_⟩
  · rw [List.length_append, depth]
    rfl
  · exact rightmost.append _
  · simp only [preorder_appendChild rightmost, depth, Nat.zero_add, preorder_cons]
    rfl

/-- A level is at least 0 and at most `limit`, which for a level behind another one is the next
deeper one. -/
def clampLevels : Int → List Int → List Int
  | _, [] => []
  | limit, level :: levels =>
    min (max 0 level) limit :: clampLevels (min (max 0 level) limit + 1) levels

theorem preorder_flatToTree (flat : List FlatBookmark) :
    preorder 0 (flatToTree flat) =
      ((clampLevels 0 (flat.map FlatBookmark.level)).map Int.toNat).zip
        (flat.map FlatBookmark.node) := by
  have run : ∀ (flat : List FlatBookmark) (build : Rebuild) (path : List Nat), Open build path →
      preorder 0 (flat.foldl Rebuild.add build).roots = preorder 0 build.roots ++
        ((clampLevels path.length (flat.map FlatBookmark.level)).map Int.toNat).zip
          (flat.map FlatBookmark.node) := by
    intro flat
    induction flat with
    | nil =>
      intro build path _
      rw [List.map_nil, List.map_nil, List.zip_nil_right, List.append_nil]
      rfl
    | cons item flat ih =>
      intro build path stack
      obtain ⟨path', length, stack', added⟩ := stack.add item
      have here : (min (max 0 item.level) path.length).toNat =
          min item.level.toNat path.length := by omega
      have next : min (max 0 item.level) path.length + 1 = (path'.length : Int) := by omega
      rw [List.foldl_cons, ih _ path' stack', added, List.append_assoc, List.map_cons,
        List.map_cons, clampLevels, next, List.map_cons, here]
      rfl
  exact run flat ⟨[], []⟩ [] ⟨trivial, rfl⟩

theorem length_clampLevels (limit : Int) (levels : List Int) :
    (clampLevels limit levels).length = levels.length := by
  induction levels generalizing limit with
  | nil => rfl
  | cons level levels ih => rw [clampLevels, List.length_cons, List.length_cons, ih]

theorem nonneg_of_mem_clampLevels {limit : Int} {levels : List Int} (open' : 0 ≤ limit) {level : Int}
    (mem : level ∈ clampLevels limit levels) : 0 ≤ level := by
  induction levels generalizing limit with
  | nil => cases mem
  | cons first levels ih =>
    rw [clampLevels, List.mem_cons] at mem
    obtain rfl | mem := mem
    · omega
    · exact ih (by omega) mem

theorem head_clampLevels (levels : List Int) :
    ∀ level ∈ (clampLevels 0 levels).head?, level = 0 := by
  cases levels with
  | nil => simp [clampLevels]
  | cons level levels =>
    simp only [clampLevels, List.head?_cons, Option.mem_some_iff, forall_eq']
    omega

/-- Each level is clamped to the level before it and 1. -/
theorem clampLevels_succ {levels : List Int} {limit : Int} {i : Nat} {before asked level : Int}
    (prev : (clampLevels limit levels)[i]? = some before) (here : levels[i + 1]? = some asked)
    (clamped : (clampLevels limit levels)[i + 1]? = some level) :
    level = min (max 0 asked) (before + 1) := by
  induction levels generalizing limit i with
  | nil => cases here
  | cons first levels ih =>
    rw [clampLevels] at prev clamped
    rw [List.getElem?_cons_succ] at here clamped
    cases i with
    | zero =>
      rw [List.getElem?_cons_zero, Option.some.injEq] at prev
      cases levels with
      | nil => cases here
      | cons second levels =>
        simp only [List.getElem?_cons_zero, Option.some.injEq] at here
        simp only [clampLevels, List.getElem?_cons_zero, Option.some.injEq] at clamped
        rw [← clamped, prev, here]
    | succ i =>
      rw [List.getElem?_cons_succ] at prev
      exact ih prev here clamped

/-! ## Well-formed lists -/

/-- The first entry is at level 0, and another one at most one level below the entry before. -/
def FitsBelow : Option FlatBookmark → FlatBookmark → Prop
  | none, b => b.level = 0
  | some a, b => b.level ≤ a.level + 1

instance : ∀ before b, Decidable (FitsBelow before b)
  | none, b => inferInstanceAs (Decidable (b.level = 0))
  | some a, b => inferInstanceAs (Decidable (b.level ≤ a.level + 1))

abbrev WellFormed (flat : List FlatBookmark) : Prop := Chained FitsBelow none flat

/-- The deepest level at which an entry can follow. -/
def room : Option FlatBookmark → Int
  | none => 0
  | some a => a.level + 1

theorem FitsBelow.level_le {before : Option FlatBookmark} {b : FlatBookmark} (fits : FitsBelow before b) :
    b.level ≤ room before := by
  cases before with
  | none => exact le_of_eq fits
  | some a => exact fits

/-- In a well-formed list only a negative level is changed. -/
theorem clampLevels_of_chained {before : Option FlatBookmark} {flat : List FlatBookmark}
    (chain : Chained FitsBelow before flat) {limit : Int} (open' : 0 ≤ limit)
    (wide : room before ≤ limit) :
    clampLevels limit (flat.map FlatBookmark.level) = flat.map fun b => max 0 b.level := by
  induction flat generalizing before limit with
  | nil => rfl
  | cons b flat ih =>
    have bound := chain.1.level_le
    have here : min (max 0 b.level) limit = max 0 b.level := by omega
    have next : room (some b) ≤ max 0 b.level + 1 := by simp only [room]; omega
    rw [List.map_cons, List.map_cons, clampLevels, here, ih chain.2 (by omega) next]

theorem chained_of_clampLevels {before : Option FlatBookmark} {flat : List FlatBookmark}
    (same : clampLevels (room before) (flat.map FlatBookmark.level) =
      flat.map FlatBookmark.level) (open' : 0 ≤ room before) :
    Chained FitsBelow before flat ∧ ∀ b ∈ flat, 0 ≤ b.level := by
  induction flat generalizing before with
  | nil => simp
  | cons b flat ih =>
    rw [List.map_cons, clampLevels, List.cons.injEq] at same
    obtain ⟨here, same⟩ := same
    rw [here] at same
    obtain ⟨rest, nonneg⟩ := @ih (some b) same (by simp only [room]; omega)
    refine ⟨⟨?_, rest⟩, ?_⟩
    · cases before with
      | none => simp only [FitsBelow, room] at here ⊢; omega
      | some a => simp only [FitsBelow, room] at here ⊢; omega
    · rintro c (_ | ⟨_, mem⟩)
      · omega
      · exact nonneg c mem

/-- The clamp changes nothing exactly in a well-formed list of depths. -/
theorem clampLevels_eq_self_iff (flat : List FlatBookmark) :
    clampLevels 0 (flat.map FlatBookmark.level) = flat.map FlatBookmark.level ↔
      WellFormed flat ∧ ∀ b ∈ flat, 0 ≤ b.level := by
  constructor
  · intro same
    exact @chained_of_clampLevels none flat same (Int.le_refl 0)
  · rintro ⟨chain, nonneg⟩
    rw [clampLevels_of_chained chain (Int.le_refl 0) (Int.le_refl 0), List.map_inj_left]
    intro b mem
    have := nonneg b mem
    omega

/-! ## Saving and opening again -/

/-- The list that the editor shows of a saved list. -/
def reopened (clock : Nat → String) (counter : Nat) (flat : List FlatBookmark) :
    List FlatBookmark :=
  (treeToFlat clock counter 0 (flatToTree flat)).1

theorem levels_reopened (clock : Nat → String) (counter : Nat) (flat : List FlatBookmark) :
    (reopened clock counter flat).map FlatBookmark.level =
      clampLevels 0 (flat.map FlatBookmark.level) := by
  have lengths : (clampLevels 0 (flat.map FlatBookmark.level)).length = flat.length := by
    rw [length_clampLevels, List.length_map]
  have firsts : (((clampLevels 0 (flat.map FlatBookmark.level)).map Int.toNat).zip
      (flat.map FlatBookmark.node)).map Prod.fst =
        (clampLevels 0 (flat.map FlatBookmark.level)).map Int.toNat := by
    apply List.map_fst_zip
    rw [List.length_map, List.length_map, lengths]
  have casts := congrArg (List.map fun n : Nat => (n : Int)) firsts
  rw [List.map_map, List.map_map] at casts
  rw [reopened, treeToFlat_eq, levels_flatEntries, preorder_flatToTree]
  refine casts.trans ?_
  conv_rhs => rw [← List.map_id (clampLevels 0 (flat.map FlatBookmark.level))]
  apply List.map_congr_left
  intro level mem
  exact Int.toNat_of_nonneg (nonneg_of_mem_clampLevels (Int.le_refl 0) mem)

theorem nodes_flatToTree (flat : List FlatBookmark) :
    (preorder 0 (flatToTree flat)).map Prod.snd = flat.map FlatBookmark.node := by
  rw [preorder_flatToTree]
  apply List.map_snd_zip
  rw [List.length_map, List.length_map, length_clampLevels, List.length_map]

/-- Title and page come back, and an id that is not empty. -/
theorem entries_reopened (clock : Nat → String) (counter : Nat) (flat : List FlatBookmark) :
    List.Forall₂ (fun a b => (a.id ≠ "" → b.id = a.id) ∧ b.title = a.title ∧ b.page = a.page) flat
      (reopened clock counter flat) := by
  have each : ∀ (entries : List (Nat × BookmarkNode)) (flat : List FlatBookmark) (counter : Nat),
      entries.map Prod.snd = flat.map FlatBookmark.node →
      List.Forall₂ (fun a b => (a.id ≠ "" → b.id = a.id) ∧ b.title = a.title ∧ b.page = a.page)
        flat (flatEntries clock counter entries).1 := by
    intro entries
    induction entries with
    | nil =>
      intro flat counter same
      rw [List.map_nil, eq_comm, List.map_eq_nil_iff] at same
      rw [same]
      exact .nil
    | cons e entries ih =>
      intro flat counter same
      obtain ⟨level, node⟩ := e
      cases flat with
      | nil => cases same
      | cons b flat =>
        rw [List.map_cons, List.map_cons, List.cons.injEq] at same
        obtain ⟨rfl, rest⟩ := same
        exact .cons ⟨fun known => if_neg known, rfl, rfl⟩ (ih flat _ rest)
  rw [reopened, treeToFlat_eq]
  exact each _ flat counter (nodes_flatToTree flat)

theorem eq_of_forall₂ {flat flat' : List FlatBookmark}
    (same : List.Forall₂ (fun a b => (a.id ≠ "" → b.id = a.id) ∧ b.title = a.title ∧
      b.page = a.page) flat flat')
    (levels : flat'.map FlatBookmark.level = flat.map FlatBookmark.level)
    (named : ∀ b ∈ flat, b.id ≠ "") : flat' = flat := by
  induction same with
  | nil => rfl
  | @cons a b flat flat' here _ ih =>
    rw [List.map_cons, List.map_cons, List.cons.injEq] at levels
    obtain ⟨ids, titles, pages⟩ := here
    have equal : b = a := by
      obtain ⟨_, _, _, _⟩ := a
      obtain ⟨_, _, _, _⟩ := b
      simp only [FlatBookmark.mk.injEq]
      exact ⟨ids (named _ List.mem_cons_self), titles, pages, levels.1⟩
    rw [equal, ih levels.2 fun b mem => named b (List.mem_cons_of_mem _ mem)]

theorem clampLevels_of_wellFormedLevels {limit : Nat} {levels : List Nat}
    (deep : WellFormedLevels limit levels) :
    clampLevels limit (levels.map fun n : Nat => (n : Int)) =
      levels.map fun n : Nat => (n : Int) := by
  induction levels generalizing limit with
  | nil => rfl
  | cons level levels ih =>
    obtain ⟨bound, deep⟩ := deep
    have here : min (max 0 (level : Int)) limit = level := by omega
    rw [List.map_cons, clampLevels, here]
    congr 1
    exact ih deep

/-- A tree that is flattened and made again has its shape, its titles and its pages. -/
theorem shown_flatToTree (clock : Nat → String) (counter : Nat) (ts : Forest BookmarkNode) :
    map BookmarkNode.shown (flatToTree (treeToFlat clock counter 0 ts).1) =
      map BookmarkNode.shown ts := by
  have wellFormed := @wellFormedLevels_preorder _ ts 0 0 [] (Nat.le_refl 0) fun _ _ => trivial
  rw [List.append_nil] at wellFormed
  have levels : (clampLevels 0 ((treeToFlat clock counter 0 ts).1.map FlatBookmark.level)).map
      Int.toNat = (preorder 0 ts).map Prod.fst := by
    have clamped := clampLevels_of_wellFormedLevels wellFormed
    rw [List.map_map] at clamped
    rw [treeToFlat_eq, levels_flatEntries]
    refine (congrArg (List.map Int.toNat) clamped).trans ?_
    rw [List.map_map]
    rfl
  have shown : ((treeToFlat clock counter 0 ts).1.map FlatBookmark.node).map BookmarkNode.shown =
      (preorder 0 ts).map fun e => e.2.shown := by
    rw [← shown_flatEntries clock counter, ← treeToFlat_eq, List.map_map]
    rfl
  apply @preorder_injective _ _ _ 0
  rw [preorder_map, preorder_map, preorder_flatToTree, levels]
  rw [← @List.zip_map' _ _ _ Prod.fst (fun e => e.2.shown) (preorder 0 ts), ← shown,
    List.zip_map_right, List.zip_map_right, List.zip_map_right]
  rfl

/-- Ids, titles and pages come back, and the levels clamped; a list comes back as it is exactly when
it is well formed and no level is negative. A tree comes back with its shape. -/
theorem outlineEdit_roundTrip (clock : Nat → String) (counter : Nat) :
    (∀ flat : List FlatBookmark,
      List.Forall₂ (fun a b => (a.id ≠ "" → b.id = a.id) ∧ b.title = a.title ∧ b.page = a.page)
        flat (reopened clock counter flat) ∧
      (∀ b ∈ (reopened clock counter flat).head?, b.level = 0) ∧
      (∀ (i : Nat) (before asked b : FlatBookmark), (reopened clock counter flat)[i]? = some before →
        flat[i + 1]? = some asked → (reopened clock counter flat)[i + 1]? = some b →
        b.level = min (max 0 asked.level) (before.level + 1)) ∧
      ((∀ b ∈ flat, b.id ≠ "") → (reopened clock counter flat = flat ↔
        WellFormed flat ∧ ∀ b ∈ flat, 0 ≤ b.level))) ∧
    ∀ ts : Forest BookmarkNode,
      map BookmarkNode.shown (flatToTree (treeToFlat clock counter 0 ts).1) =
        map BookmarkNode.shown ts := by
  refine ⟨fun flat => ⟨entries_reopened clock counter flat, ?_, ?_, ?_⟩,
    shown_flatToTree clock counter⟩
  · intro b first
    have level : b.level ∈ ((reopened clock counter flat).map FlatBookmark.level).head? := by
      rw [List.head?_map]
      exact Option.mem_map_of_mem _ first
    rw [levels_reopened] at level
    exact head_clampLevels _ _ level
  · intro i before asked b prev here clamped
    have levels (k : Nat) : (clampLevels 0 (flat.map FlatBookmark.level))[k]? =
        (reopened clock counter flat)[k]?.map FlatBookmark.level := by
      rw [← levels_reopened clock counter, List.getElem?_map]
    apply @clampLevels_succ (flat.map FlatBookmark.level) 0 i
    · rw [levels, prev]; rfl
    · rw [List.getElem?_map, here]; rfl
    · rw [levels, clamped]; rfl
  · intro named
    rw [← clampLevels_eq_self_iff, ← levels_reopened clock counter]
    constructor
    · intro same
      rw [same]
    · intro levels
      exact eq_of_forall₂ (entries_reopened clock counter flat) levels named

theorem outlineEdit_roundTrip_chapters :
    reopened (fun _ => "mb1c0k2d") 0
        [⟨"a", "Chapter 1", 1, 0⟩, ⟨"b", "Section 1.1", 2, 1⟩, ⟨"c", "Chapter 2", 4, 0⟩] =
      [⟨"a", "Chapter 1", 1, 0⟩, ⟨"b", "Section 1.1", 2, 1⟩, ⟨"c", "Chapter 2", 4, 0⟩] :=
  (((outlineEdit_roundTrip (fun _ => "mb1c0k2d") 0).1 _).2.2.2 (by decide)).mpr
    ⟨by decide, by decide⟩

/-- Under a chapter at level 0 an entry at level -1 is at most one level deeper than the entry
before, and comes back at level 0. -/
theorem outlineEdit_roundTrip_negative :
    ¬∀ (clock : Nat → String) (counter : Nat) (flat : List FlatBookmark),
      (∀ b ∈ flat, b.id ≠ "") → WellFormed flat → reopened clock counter flat = flat := by
  intro all
  have same := all (fun _ => "mb1c0k2d") 0 [⟨"a", "Chapter 1", 1, 0⟩, ⟨"b", "Chapter 2", 4, -1⟩]
    (by decide) (by decide)
  revert same
  decide

end GigaPdf
