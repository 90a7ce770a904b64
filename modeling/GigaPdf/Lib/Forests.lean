import Mathlib.Data.List.Basic

/-!
# Forests

Trees with labels and ordered children, and their preorder lists, in which every label stands with
its level. A forest grows at a path; at a rightmost path this adds one entry to the end of its
preorder list. The list determines the forest.
-/

namespace Forests

variable {α β : Type*}

inductive Tree (α : Type*)
  | node (label : α) (children : List (Tree α))

namespace Tree

def label : Tree α → α
  | node a _ => a

def children : Tree α → List (Tree α)
  | node _ ts => ts

@[simp] theorem label_node (a : α) (ts : List (Tree α)) : (node a ts).label = a := rfl

@[simp] theorem children_node (a : α) (ts : List (Tree α)) : (node a ts).children = ts := rfl

end Tree

abbrev Forest (α : Type*) := List (Tree α)

mutual

def treePreorder (level : Nat) : Tree α → List (Nat × α)
  | .node a ts => (level, a) :: preorder (level + 1) ts

/-- Every label with its level, a label before those below it. -/
def preorder (level : Nat) : Forest α → List (Nat × α)
  | [] => []
  | t :: ts => treePreorder level t ++ preorder level ts

end

mutual

def treeMap (f : α → β) : Tree α → Tree β
  | .node a ts => .node (f a) (map f ts)

def map (f : α → β) : Forest α → Forest β
  | [] => []
  | t :: ts => treeMap f t :: map f ts

end

@[simp] theorem preorder_nil (level : Nat) : preorder level ([] : Forest α) = [] := rfl

theorem preorder_cons (level : Nat) (t : Tree α) (ts : Forest α) :
    preorder level (t :: ts) =
      (level, t.label) :: (preorder (level + 1) t.children ++ preorder level ts) := by
  cases t
  rfl

@[simp] theorem map_nil (f : α → β) : map f ([] : Forest α) = [] := rfl

theorem map_cons (f : α → β) (t : Tree α) (ts : Forest α) :
    map f (t :: ts) = .node (f t.label) (map f t.children) :: map f ts := by
  cases t
  rfl

theorem preorder_append (level : Nat) (ts us : Forest α) :
    preorder level (ts ++ us) = preorder level ts ++ preorder level us := by
  induction ts with
  | nil => rfl
  | cons t ts ih => rw [List.cons_append, preorder_cons, preorder_cons, ih]; simp

/-- An induction over the trees of a forest and their children. -/
theorem forest_induction {P : Forest α → Prop} (nil : P [])
    (cons : ∀ a ts us, P ts → P us → P (.node a ts :: us)) : ∀ ts, P ts
  | [] => nil
  | .node a ts :: us => cons a ts us (forest_induction nil cons ts) (forest_induction nil cons us)

theorem preorder_map (f : α → β) (ts : Forest α) (level : Nat) :
    preorder level (map f ts) = (preorder level ts).map fun e => (e.1, f e.2) := by
  induction ts using forest_induction generalizing level with
  | nil => rfl
  | cons a ts us children rest =>
    rw [map_cons, preorder_cons, preorder_cons, List.map_cons, List.map_append]
    simp only [Tree.label_node, Tree.children_node, children, rest]

theorem level_le_of_mem_preorder (ts : Forest α) {level : Nat} {e : Nat × α}
    (mem : e ∈ preorder level ts) : level ≤ e.1 := by
  induction ts using forest_induction generalizing level with
  | nil => cases mem
  | cons a ts us children rest =>
    rw [preorder_cons, List.mem_cons, List.mem_append] at mem
    obtain rfl | mem | mem := mem
    · exact Nat.le_refl level
    · exact Nat.le_of_succ_le (children mem)
    · exact rest mem

/-! ## The list determines the forest -/

/-- The entries below a label come first, and the next label of its level ends them. -/
theorem takeWhile_preorder (level : Nat) (ts us : Forest α) :
    (preorder (level + 1) ts ++ preorder level us).takeWhile (fun e => level < e.1) =
      preorder (level + 1) ts := by
  have below : ∀ e ∈ preorder (level + 1) ts, decide (level < e.1) = true := fun e mem =>
    decide_eq_true (level_le_of_mem_preorder ts mem)
  have next : (preorder level us).takeWhile (fun e => level < e.1) = [] := by
    cases us with
    | nil => rfl
    | cons u us => rw [preorder_cons]; simp
  rw [List.takeWhile_append_of_pos below, next, List.append_nil]

theorem preorder_injective {ts us : Forest α} {level : Nat}
    (same : preorder level ts = preorder level us) : ts = us := by
  induction ts using forest_induction generalizing us level with
  | nil =>
    cases us with
    | nil => rfl
    | cons u us =>
      rw [preorder_cons] at same
      cases same
  | cons a ts rest children behind =>
    cases us with
    | nil =>
      rw [preorder_cons] at same
      cases same
    | cons u us =>
      obtain ⟨b, below⟩ := u
      simp only [preorder_cons, Tree.label_node, Tree.children_node, List.cons.injEq,
        Prod.mk.injEq, true_and] at same
      obtain ⟨rfl, same⟩ := same
      have first := congrArg (List.takeWhile fun e => level < e.1) same
      rw [takeWhile_preorder, takeWhile_preorder] at first
      rw [first] at same
      rw [children first, behind (List.append_cancel_left same)]

/-! ## Levels -/

/-- No level is skipped. -/
def WellFormedLevels : Nat → List Nat → Prop
  | _, [] => True
  | limit, level :: levels => level ≤ limit ∧ WellFormedLevels (level + 1) levels

theorem wellFormedLevels_preorder (ts : Forest α) {level limit : Nat} {rest : List Nat}
    (bound : level ≤ limit) (after : ∀ limit, level ≤ limit → WellFormedLevels limit rest) :
    WellFormedLevels limit ((preorder level ts).map Prod.fst ++ rest) := by
  induction ts using forest_induction generalizing level limit rest with
  | nil => exact after limit bound
  | cons a ts us children behind =>
    rw [preorder_cons, List.map_cons, List.map_append, List.cons_append, List.append_assoc]
    constructor
    · exact bound
    · apply children (Nat.le_refl _)
      intro limit deep
      apply behind (by omega) after

/-! ## Growing at a path -/

/-- The forest at the end of a path; a path that leads nowhere ends in nothing. -/
def childrenAt : List Nat → Forest α → Forest α
  | [], ts => ts
  | i :: path, ts => childrenAt path ((ts[i]?.map Tree.children).getD [])

/-- The tree becomes the last one at the end of the path. -/
def appendChild : List Nat → Tree α → Forest α → Forest α
  | [], t, ts => ts ++ [t]
  | i :: path, t, ts => ts.modify i fun u => .node u.label (appendChild path t u.children)

/-- Every step of the path goes to the last tree. -/
def Rightmost : List Nat → Forest α → Prop
  | [], _ => True
  | i :: path, ts => ∃ front t, ts = front ++ [t] ∧ i = front.length ∧ Rightmost path t.children

theorem modify_last (front : List α) (a : α) (f : α → α) :
    (front ++ [a]).modify front.length f = front ++ [f a] := by
  induction front with
  | nil => rfl
  | cons b front ih => simpa using ih

/-- At a rightmost path the tree comes last in the preorder list. -/
theorem preorder_appendChild {path : List Nat} {ts : Forest α} (rightmost : Rightmost path ts)
    (t : Tree α) (level : Nat) :
    preorder level (appendChild path t ts) =
      preorder level ts ++ preorder (level + path.length) [t] := by
  induction path generalizing ts level with
  | nil => exact preorder_append level ts [t]
  | cons i path ih =>
    obtain ⟨front, u, rfl, rfl, deeper⟩ := rightmost
    have depth : level + 1 + path.length = level + (front.length :: path).length := by
      rw [List.length_cons]
      omega
    rw [appendChild, modify_last, preorder_append, preorder_append, preorder_cons level u,
      preorder_cons level (.node _ _)]
    simp only [Tree.label_node, Tree.children_node, ih deeper, depth, preorder_nil,
      List.append_nil, List.append_assoc, List.cons_append]

/-- The new tree ends a rightmost path. -/
theorem Rightmost.append {path : List Nat} {ts : Forest α} (rightmost : Rightmost path ts)
    (t : Tree α) :
    Rightmost (path ++ [(childrenAt path ts).length]) (appendChild path t ts) := by
  induction path generalizing ts with
  | nil => exact ⟨ts, t, rfl, rfl, trivial⟩
  | cons i path ih =>
    obtain ⟨front, u, rfl, rfl, deeper⟩ := rightmost
    refine ⟨front, .node u.label (appendChild path t u.children), modify_last _ _ _, rfl, ?_⟩
    have last : (front ++ [u])[front.length]? = some u := by simp
    rw [childrenAt, last]
    exact ih deeper

theorem Rightmost.take {path : List Nat} {ts : Forest α} (rightmost : Rightmost path ts)
    (n : Nat) : Rightmost (path.take n) ts := by
  induction path generalizing ts n with
  | nil => rw [List.take_nil]; trivial
  | cons i path ih =>
    cases n with
    | zero => trivial
    | succ n =>
      obtain ⟨front, u, rfl, rfl, deeper⟩ := rightmost
      exact ⟨front, u, rfl, rfl, ih deeper n⟩

end Forests
