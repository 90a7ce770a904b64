import GigaPdf.Lib.Ancestry
import GigaPdf.Lib.Text
import GigaPdf.Storage.FolderMoves

/-!
# The tree of folders

A folder has a parent and a path. The paths are those of the parents, so that what lies below a
folder can be found by either.
-/

namespace GigaPdf

open Ancestry Runs

def Db.parentOf (db : Db) (id : Uuid) : Option Uuid := (db.folders.find? id).bind (·.parentId)

/-- The path that names some ids. -/
def pathText (ids : List Uuid) : String :=
  String.ofList ('/' :: Text.terminated '/' (ids.map (·.text.toList)))

structure FolderTree (db : Db) : Prop where
  owner : ∀ f ∈ db.folders.rows, ∀ p, f.parentId = some p → db.OwnsFolder f.ownerId p
  path : ∀ f ∈ db.folders.rows, ∃ ids, Chain db.parentOf f.id ids ∧ f.path = pathText ids

/-! ## Paths -/

theorem toList_pathText (ids : List Uuid) :
    (pathText ids).toList = '/' :: Text.terminated '/' (ids.map (·.text.toList)) :=
  String.toList_ofList

theorem pathText_append (ids : List Uuid) (id : Uuid) :
    pathText ids ++ id.text ++ "/" = pathText (ids ++ [id]) := by
  apply String.toList_inj.mp
  rw [String.toList_append, String.toList_append, toList_pathText, toList_pathText, List.map_append,
    Text.terminated_append]
  simp [Text.terminated]

theorem hasPrefix_pathText {ids above : List Uuid} :
    hasPrefix (pathText ids) (pathText above) = true ↔ above <+: ids := by
  have free (l : List Uuid) : ∀ s ∈ l.map (·.text.toList), '/' ∉ s := by
    intro s mem
    obtain ⟨id, -, rfl⟩ := List.mem_map.mp mem
    exact id.noSlash
  have injective : Function.Injective fun id : Uuid => id.text.toList := by
    intro a b same
    cases a
    cases b
    cases String.toList_inj.mp same
    rfl
  rw [hasPrefix, List.isPrefixOf_iff_prefix, toList_pathText, toList_pathText,
    List.cons_prefix_cons, eq_self_iff_true, true_and,
    Text.terminated_prefix_iff (free above) (free ids)]
  exact List.prefix_map_iff_of_injective injective

theorem replaceStart_pathText (old new below : List Uuid) :
    replaceStart (pathText (old ++ below)) (pathText old) (pathText new) =
      pathText (new ++ below) := by
  apply String.toList_inj.mp
  have split (l : List Uuid) : (pathText (l ++ below)).toList =
      (pathText l).toList ++ Text.terminated '/' (below.map (·.text.toList)) := by
    rw [toList_pathText, toList_pathText, List.map_append, Text.terminated_append]
    rfl
  rw [replaceStart, String.toList_append, String.toList_ofList, split, split,
    ← String.length_toList, List.drop_left]

/-! ## Chains of folders -/

section
variable {db : Db}

theorem Db.parentOf_of_mem {f : Folder} (hf : f ∈ db.folders.rows) :
    db.parentOf f.id = f.parentId := by
  rw [Db.parentOf, Table.find?_of_mem hf, Option.bind_some]

/-- All folders above one are its owner's. -/
theorem FolderTree.owns_above (tree : FolderTree db) {f : Folder} (hf : f ∈ db.folders.rows)
    {ids : List Uuid} (chain : Chain db.parentOf f.id ids) {id : Uuid} (mem : id ∈ ids) :
    db.OwnsFolder f.ownerId id := by
  induction ids using List.reverseRecOn generalizing f with
  | nil => cases mem
  | append_singleton above p ih =>
    obtain ⟨h, rest⟩ := chain.of_concat
    rw [Db.parentOf_of_mem hf] at h
    obtain ⟨parent, hparent, rfl, owner⟩ := tree.owner f hf p h
    obtain mem | last := List.mem_append.mp mem
    · rw [← owner]
      exact ih hparent rest mem
    · rw [List.mem_singleton.mp last]
      exact ⟨parent, hparent, rfl, owner⟩

theorem FolderTree.childPath_eq (tree : FolderTree db) {f : Folder} (hf : f ∈ db.folders.rows) :
    ∃ ids, Chain db.parentOf f.id ids ∧ f.path = pathText ids ∧
      childPath (some f) = pathText (ids ++ [f.id]) := by
  obtain ⟨ids, chain, path⟩ := tree.path f hf
  refine ⟨ids, chain, path, ?_⟩
  rw [childPath, path, pathText_append]

/-- The folders whose path starts with that of a folder are those below it. -/
theorem FolderTree.hasPrefix_iff (tree : FolderTree db) {f g : Folder}
    (hf : f ∈ db.folders.rows) (hg : g ∈ db.folders.rows) {ids : List Uuid}
    (chain : Chain db.parentOf g.id ids) :
    hasPrefix g.path (childPath (some f)) = true ↔ f.id ∈ ids := by
  obtain ⟨above, up, -, below⟩ := tree.childPath_eq hf
  obtain ⟨ids', chain', path⟩ := tree.path g hg
  rw [chain.unique chain', path, below, hasPrefix_pathText]
  exact chain'.prefix_iff up

/-- The path below the folder that a request has named. -/
theorem FolderTree.under (tree : FolderTree db) {userId : String} {id : Option Uuid}
    {folder : Option Folder} (h : db.targetFolder id userId = some folder) :
    ∃ ids, Under db.parentOf id ids ∧ childPath folder = pathText ids := by
  cases id with
  | none =>
    cases h
    exact ⟨[], .top, rfl⟩
  | some id =>
    obtain ⟨f, own, rfl⟩ := Option.map_eq_some_iff.mp h
    obtain ⟨hf, rfl, -⟩ := ownedFolder_owns own
    obtain ⟨ids, chain, -, below⟩ := tree.childPath_eq hf
    exact ⟨_, .node chain, below⟩

/-! ## A new folder -/

theorem FolderTree.insert (tree : FolderTree db) {userId name : String} {parentId : Option Uuid}
    {id : Uuid} {parent : Option Folder} (target : db.targetFolder parentId userId = some parent)
    {folders : Table Folder.id}
    (inserted : db.folders.insert? ⟨id, name, userId, parentId, childPath parent⟩ = some folders) :
    FolderTree { db with folders := folders } := by
  let db' : Db := { db with folders := folders }
  have rows (x : Folder) := Table.mem_insert? inserted (x := x)
  have fresh := Table.find?_eq_none.mp (Table.insert?_eq_some.mp inserted).1
  have kept {userId : String} {f : Uuid} (own : db.OwnsFolder userId f) : db'.OwnsFolder userId f := by
    obtain ⟨folder, hfolder, rest⟩ := own
    exact ⟨folder, (rows folder).mpr (.inr hfolder), rest⟩
  have pointer : db'.parentOf id = parentId := by
    rw [Db.parentOf, Table.find?_insert? inserted, if_pos rfl, Option.bind_some]
  have same {userId : String} {other : Uuid} (own : db.OwnsFolder userId other) :
      db'.parentOf other = db.parentOf other := by
    obtain ⟨folder, hfolder, rfl, -⟩ := own
    rw [Db.parentOf, Table.find?_insert? inserted, if_neg (Ne.symm (fresh folder hfolder))]
    rfl
  have chains {f : Folder} (hf : f ∈ db.folders.rows) {ids : List Uuid}
      (chain : Chain db.parentOf f.id ids) : Chain db'.parentOf f.id ids :=
    chain.congr (same ⟨f, hf, rfl, rfl⟩) fun j mem => same (tree.owns_above hf chain mem)
  constructor
  · intro f hf p hp
    obtain rfl | old := (rows f).mp hf
    · exact kept (targetFolder_owns target p hp)
    · exact kept (tree.owner f old p hp)
  · intro f hf
    obtain rfl | old := (rows f).mp hf
    · obtain ⟨ids, under, path⟩ := tree.under target
      refine ⟨ids, ?_, path⟩
      cases under with
      | top => exact .top pointer
      | node chain =>
        obtain ⟨q, hq, rfl, -⟩ := targetFolder_owns target _ rfl
        exact .child pointer (chains hq chain)
    · obtain ⟨ids, chain, path⟩ := tree.path f old
      exact ⟨ids, chains old chain, path⟩

/-! ## A move -/

theorem Db.OwnsFolder.moveRows {userId : String} {id : Uuid} (own : db.OwnsFolder userId id)
    (folder : Folder) (parentId : Option Uuid) (newPath : String) :
    (db.moveRows folder parentId newPath).OwnsFolder userId id := by
  obtain ⟨f, hf, hid, howner⟩ := own
  exact ⟨_, Db.mem_moveRows.mpr ⟨f, hf, rfl⟩, (movedRow_id ..).trans hid,
    (movedRow_ownerId ..).trans howner⟩

/-- A move changes one parent. -/
theorem Db.parentOf_moveRows {folder : Folder} (hfolder : folder ∈ db.folders.rows)
    (parentId : Option Uuid) (newPath : String) :
    (db.moveRows folder parentId newPath).parentOf =
      Function.update db.parentOf folder.id parentId := by
  funext id
  rw [Db.parentOf, Db.find?_moveRows]
  cases found : db.folders.find? id with
  | none =>
    have other : id ≠ folder.id := by
      rintro rfl
      rw [Table.find?_of_mem hfolder] at found
      cases found
    rw [Function.update_of_ne other, Db.parentOf, found]
    rfl
  | some f =>
    obtain ⟨hf, rfl⟩ := Table.find?_eq_some.mp found
    rw [Option.map_some, Option.bind_some, movedRow_parentId]
    by_cases same : f.id = folder.id
    · rw [if_pos same, same, Function.update_self]
    · rw [if_neg same, Function.update_of_ne same, Db.parentOf_of_mem hf]

/-- A folder is not above its new place. -/
theorem FolderTree.not_above (tree : FolderTree db) {userId : String} {folder : Folder}
    (hfolder : folder ∈ db.folders.rows) {parentId : Option Uuid} {parent : Option Folder}
    (target : db.targetFolder parentId userId = some parent) (proper : parentId ≠ some folder.id)
    (outside : ∀ p ∈ parent, hasPrefix p.path (childPath (some folder)) = false)
    {ids : List Uuid} (under : Under db.parentOf parentId ids) : folder.id ∉ ids := by
  intro mem
  cases under with
  | top => cases mem
  | @node q ids chain =>
    obtain ⟨p, found, rfl⟩ := Option.map_eq_some_iff.mp target
    obtain ⟨hp, rfl, -⟩ := ownedFolder_owns found
    obtain mem | last := List.mem_append.mp mem
    · have inside := (tree.hasPrefix_iff hfolder hp chain).mpr mem
      rw [outside p rfl] at inside
      cases inside
    · exact proper (congrArg some (List.mem_singleton.mp last).symm)

theorem FolderTree.move (tree : FolderTree db) {userId : String} {folder : Folder}
    (hfolder : folder ∈ db.folders.rows) (owner : folder.ownerId = userId)
    {parentId : Option Uuid} {parent : Option Folder}
    (target : db.targetFolder parentId userId = some parent) (proper : parentId ≠ some folder.id)
    (outside : ∀ p ∈ parent, hasPrefix p.path (childPath (some folder)) = false) :
    FolderTree (db.moveRows folder parentId (childPath parent)) := by
  subst owner
  obtain ⟨above, up, -, below⟩ := tree.childPath_eq hfolder
  obtain ⟨moved, under, newPath⟩ := tree.under target
  have not_moved : folder.id ∉ moved := tree.not_above hfolder target proper outside under
  constructor
  · intro x hx p hp
    obtain ⟨f, hf, rfl⟩ := Db.mem_moveRows.mp hx
    rw [movedRow_parentId] at hp
    rw [movedRow_ownerId]
    split at hp
    · rename_i same
      rw [db.folders.eq_of_key_eq hf hfolder same]
      exact (targetFolder_owns target p hp).moveRows ..
    · exact (tree.owner f hf p hp).moveRows ..
  · intro x hx
    obtain ⟨f, hf, rfl⟩ := Db.mem_moveRows.mp hx
    rw [Db.parentOf_moveRows hfolder, movedRow_id]
    by_cases same : f.id = folder.id
    · rw [same, movedRow, if_pos same]
      exact ⟨moved, under.update not_moved, newPath⟩
    · obtain ⟨ids, chain, path⟩ := tree.path f hf
      have start := tree.hasPrefix_iff hfolder hf chain
      rw [movedRow, if_neg same]
      by_cases mem : folder.id ∈ ids
      · obtain ⟨up', down, chain', rfl⟩ := chain.of_mem mem
        obtain rfl := up.unique chain'
        have owner : f.ownerId = folder.ownerId := by
          obtain ⟨own, hown, hid, same_owner⟩ := tree.owns_above hf chain mem
          rw [← same_owner, db.folders.eq_of_key_eq hown hfolder hid]
        refine ⟨moved ++ folder.id :: down, up.update_of_mem under not_moved chain, ?_⟩
        rw [if_pos (by rw [owner, start.mpr mem]; simp), newPath, pathText_append, below, path]
        have whole (l : List Uuid) : l ++ folder.id :: down = l ++ [folder.id] ++ down := by simp
        rw [whole, whole, replaceStart_pathText]
      · refine ⟨ids, chain.update_of_not_mem same mem, ?_⟩
        rw [if_neg, path]
        rw [Bool.and_eq_true]
        exact fun both => mem (start.mp both.2)

/-! ## A deletion -/

theorem FolderTree.of_folders (tree : FolderTree db) {db' : Db} (same : db'.folders = db.folders) :
    FolderTree db' := by
  have pointers : db'.parentOf = db.parentOf := by
    funext id
    rw [Db.parentOf, Db.parentOf, same]
  constructor
  · intro f hf p hp
    obtain ⟨own, hown, rest⟩ := tree.owner f (same ▸ hf) p hp
    exact ⟨own, same ▸ hown, rest⟩
  · rw [pointers, same]
    exact tree.path

/-- What is above a folder that is not deleted is not deleted. -/
theorem above_stays (tree : FolderTree db) {gone : List Uuid} {f : Folder}
    (closed : ∀ f ∈ db.folders.rows, ∀ p, f.parentId = some p → p ∈ gone → f.id ∈ gone)
    (hf : f ∈ db.folders.rows) (stays : f.id ∉ gone) {ids : List Uuid}
    (chain : Chain db.parentOf f.id ids) : ∀ j ∈ ids, j ∉ gone := by
  induction ids using List.reverseRecOn generalizing f with
  | nil => exact fun j mem => absurd mem List.not_mem_nil
  | append_singleton above p ih =>
    obtain ⟨h, rest⟩ := chain.of_concat
    rw [Db.parentOf_of_mem hf] at h
    obtain ⟨parent, hparent, rfl, -⟩ := tree.owner f hf p h
    have parent_stays : parent.id ∉ gone := fun mem => stays (closed f hf _ h mem)
    intro j mem
    obtain mem | last := List.mem_append.mp mem
    · exact ih hparent parent_stays rest j mem
    · rw [List.mem_singleton.mp last]
      exact parent_stays

theorem FolderTree.deleteFolders (tree : FolderTree db) (ids : List Uuid) :
    FolderTree (db.deleteFolders ids) := by
  let gone := cascadeFolders db.folders.rows ids
  have rows (f : Folder) : f ∈ (db.deleteFolders ids).folders.rows ↔
      f ∈ db.folders.rows ∧ f.id ∉ gone := by
    rw [Db.deleteFolders, Table.mem_deleteWhere, decide_eq_false_iff_not]
  have closed : ∀ f ∈ db.folders.rows, ∀ p, f.parentId = some p → p ∈ gone → f.id ∈ gone :=
    fun f hf p hp mem => cascadeFolders_closed _ _ hf hp mem
  have pointers {id : Uuid} (stays : id ∉ gone) :
      (db.deleteFolders ids).parentOf id = db.parentOf id := by
    rw [Db.parentOf, Db.parentOf, Db.deleteFolders, Table.find?_deleteWhere]
    cases found : db.folders.find? id with
    | none => rfl
    | some f =>
      obtain ⟨-, rfl⟩ := Table.find?_eq_some.mp found
      rw [Option.filter_some, if_pos]
      simpa using stays
  constructor
  · intro f hf p hp
    obtain ⟨old, stays⟩ := (rows f).mp hf
    obtain ⟨parent, hparent, rfl, owner⟩ := tree.owner f old p hp
    exact ⟨parent, (rows parent).mpr ⟨hparent, fun mem => stays (closed f old _ hp mem)⟩, rfl, owner⟩
  · intro f hf
    obtain ⟨old, stays⟩ := (rows f).mp hf
    obtain ⟨ids, chain, path⟩ := tree.path f old
    refine ⟨ids, chain.congr (pointers stays) fun j mem => ?_, path⟩
    exact pointers (above_stays tree closed old stays chain j mem)

/-! ## Requests -/

theorem FolderTree.createFolder (tree : FolderTree db) {w w' : World} (hw : w.db = db)
    {userId name : String} {parentId : Option Uuid} {id : Uuid}
    (h : createFolder w userId name parentId id = some w') : FolderTree w'.db := by
  subst hw
  simp only [GigaPdf.createFolder, Option.bind_eq_bind, Option.bind_eq_some_iff,
    Option.some.injEq] at h
  obtain ⟨parent, target, issued, hissued, folders, inserted, rfl⟩ := h
  obtain ⟨-, rfl⟩ := generateUuid_spec hissued
  exact tree.insert target inserted

theorem FolderTree.moveFolderRequest (tree : FolderTree db) {m : FolderMove} (valid : m.Valid)
    {selected : List Folder} (fits : m.Fits db selected) :
    FolderTree (db.writeMove m selected) := by
  rw [fits.writeMove_eq]
  exact tree.move (Table.find?_eq_some.mp fits.folder).1 rfl (fits.target valid) fits.proper
    valid.outside

theorem FolderTree.deleteFolder (tree : FolderTree db) {increment : Increment} {w w' : World}
    (hw : w.db = db) {userId : String} {folderId : Uuid} {cascade : Bool} {now : Time}
    (h : deleteFolder increment w userId folderId cascade now = some w') : FolderTree w'.db := by
  subst hw
  simp only [GigaPdf.deleteFolder, Option.bind_eq_bind, Option.bind_eq_some_iff,
    Option.ite_none_left_eq_some, Option.some.injEq] at h
  obtain ⟨subtree, -, -, db, hrelease, rfl⟩ := h
  exact (tree.of_folders (releaseDocuments_frame hrelease).folders).deleteFolders [folderId]

/-! ## Sub-trees -/

theorem FolderTree.length_lt (tree : FolderTree db) {f : Folder} (hf : f ∈ db.folders.rows)
    {ids : List Uuid} (chain : Chain db.parentOf f.id ids) : ids.length < db.folders.rows.length := by
  have inside : ids ++ [f.id] ⊆ db.folders.rows.map (·.id) := by
    intro id mem
    obtain mem | last := List.mem_append.mp mem
    · obtain ⟨own, hown, rfl, -⟩ := tree.owns_above hf chain mem
      exact List.mem_map_of_mem hown
    · rw [List.mem_singleton.mp last]
      exact List.mem_map_of_mem hf
  have length := List.Nodup.length_le_of_subset chain.nodup inside
  rw [List.length_append, List.length_map] at length
  exact length

/-- `user_has_share_in_folder_subtree`. -/
def Db.shareSubtree (db : Db) (folder : Folder) : List Uuid :=
  (db.folders.rows.filter fun f => f.id = folder.id || hasPrefix f.path (childPath (some folder))).map
    (·.id)

/-- `get_folder_stats`, which also uses the id that the request has sent. -/
def Db.statsSubtree (db : Db) (folder : Folder) (folderId : String) : List Uuid :=
  folder.id ::
    (db.foldersBelow folder.ownerId (folder.path ++ folderId ++ "/")).map (·.id)

theorem FolderTree.mem_subtree (tree : FolderTree db) {f : Folder} (hf : f ∈ db.folders.rows) :
    ∃ ids, db.lockFolderSubtree f.id f.ownerId = some ids ∧
      ∀ id, id ∈ ids ↔ ∃ g ∈ db.folders.rows, g.id = id ∧
        (g.id = f.id ∨ hasPrefix g.path (childPath (some f)) = true) := by
  have children (parents : List Uuid) (id : Uuid) :
      id ∈ childFolders db.folders.rows parents ↔ ∃ p ∈ parents, Points db.parentOf id p := by
    rw [mem_childFolders]
    constructor
    · rintro ⟨g, hg, rfl, p, hp, mem⟩
      exact ⟨p, mem, (Db.parentOf_of_mem hg).trans hp⟩
    · rintro ⟨p, mem, points⟩
      obtain ⟨g, found, hp⟩ := Option.bind_eq_some_iff.mp points
      obtain ⟨hg, rfl⟩ := Table.find?_eq_some.mp found
      exact ⟨g, hg, rfl, p, hp, mem⟩
  have enough : ∃ ids, descendants db.folders.rows db.folders.rows.length [f.id] = some ids := by
    -- A folder at level `n` has at least `n` folders above it.
    refine Closure.levels_some _ (fun n id => ∃ g ∈ db.folders.rows, g.id = id ∧
      ∃ ids, Chain db.parentOf id ids ∧ n ≤ ids.length) ?_ 0 ?_ ?_
    · intro n parents level id mem
      obtain ⟨g, hg, rfl, p, hp, mem⟩ := mem_childFolders.mp mem
      obtain ⟨-, -, -, ids, chain, length⟩ := level p mem
      refine ⟨g, hg, rfl, ids ++ [p], .child ((Db.parentOf_of_mem hg).trans hp) chain, ?_⟩
      rw [List.length_append]
      exact Nat.succ_le_succ length
    · rintro id ⟨g, hg, rfl, ids, chain, length⟩
      exact Nat.not_lt.mpr length (tree.length_lt hg chain)
    · intro id mem
      obtain ⟨ids, chain, -⟩ := tree.path f hf
      rw [List.mem_singleton.mp mem]
      exact ⟨f, hf, rfl, ids, chain, Nat.zero_le _⟩
  obtain ⟨ids, h⟩ := enough
  refine ⟨ids, ?_, fun id => ?_⟩
  · rw [Db.lockFolderSubtree, ownedFolder_of_find? (Table.find?_of_mem hf)]
    exact h
  · rw [Closure.mem_levels _ (fun p id => Points db.parentOf id p) children h]
    simp only [List.mem_singleton, exists_eq_left]
    rw [← Relation.reflTransGen_swap]
    change Relation.ReflTransGen (Points db.parentOf) id f.id ↔ _
    constructor
    · intro path
      obtain rfl | ⟨p, first, -⟩ := path.cases_head
      · exact ⟨f, hf, rfl, .inl rfl⟩
      · obtain ⟨g, found, -⟩ := Option.bind_eq_some_iff.mp first
        obtain ⟨hg, rfl⟩ := Table.find?_eq_some.mp found
        obtain ⟨ids, chain, -⟩ := tree.path g hg
        refine ⟨g, hg, rfl, ?_⟩
        obtain mem | last := List.mem_append.mp (chain.reflTransGen_iff.mp path)
        · exact .inr ((tree.hasPrefix_iff hf hg chain).mpr mem)
        · exact .inl (List.mem_singleton.mp last).symm
    · rintro ⟨g, hg, rfl, below⟩
      obtain ⟨ids, chain, -⟩ := tree.path g hg
      refine chain.reflTransGen_iff.mpr (List.mem_append.mpr ?_)
      obtain same | start := below
      · exact .inr (List.mem_singleton.mpr same.symm)
      · exact .inl ((tree.hasPrefix_iff hf hg chain).mp start)

theorem FolderTree.subtree_owner (tree : FolderTree db) {f g : Folder}
    (hf : f ∈ db.folders.rows) (hg : g ∈ db.folders.rows)
    (below : hasPrefix g.path (childPath (some f)) = true) : g.ownerId = f.ownerId := by
  obtain ⟨ids, chain, -⟩ := tree.path g hg
  have mem := (tree.hasPrefix_iff hf hg chain).mp below
  obtain ⟨own, hown, same, owner⟩ := tree.owns_above hg chain mem
  rw [← owner, db.folders.eq_of_key_eq hown hf same]

/-! ## The law -/

/-- Paths are the chains of ancestors, and both find the same sub-trees. -/
structure FolderPaths (db : Db) : Prop where
  acyclic : ∀ f ∈ db.folders.rows, ¬Relation.TransGen (Points db.parentOf) f.id f.id
  owner : ∀ f ∈ db.folders.rows, ∀ p, f.parentId = some p →
    ∃ parent ∈ db.folders.rows, parent.id = p ∧ parent.ownerId = f.ownerId
  path : ∀ f ∈ db.folders.rows, ∃ ids, Chain db.parentOf f.id ids ∧ f.path = pathText ids
  subtree : ∀ f ∈ db.folders.rows, ∃ ids, db.lockFolderSubtree f.id f.ownerId = some ids ∧
    (∀ id, id ∈ db.shareSubtree f ↔ id ∈ ids) ∧ ∀ id, id ∈ db.statsSubtree f f.id.text ↔ id ∈ ids

theorem FolderTree.paths (tree : FolderTree db) : FolderPaths db := by
  refine ⟨fun f hf => ?_, tree.owner, tree.path, fun f hf => ?_⟩
  · obtain ⟨ids, chain, -⟩ := tree.path f hf
    exact chain.acyclic
  · obtain ⟨ids, locked, mem⟩ := tree.mem_subtree hf
    refine ⟨ids, locked, fun id => ?_, fun id => ?_⟩
    · rw [mem, Db.shareSubtree, List.mem_map]
      simp only [List.mem_filter, Bool.or_eq_true, decide_eq_true_eq]
      exact ⟨fun ⟨g, ⟨hg, below⟩, same⟩ => ⟨g, hg, same, below⟩,
        fun ⟨g, hg, same, below⟩ => ⟨g, ⟨hg, below⟩, same⟩⟩
    · have listed : id ∈ (db.foldersBelow f.ownerId (childPath (some f))).map (·.id) ↔
          ∃ g ∈ db.folders.rows, g.id = id ∧ hasPrefix g.path (childPath (some f)) = true := by
        rw [List.mem_map]
        constructor
        · rintro ⟨g, hg, rfl⟩
          obtain ⟨row, both⟩ := List.mem_filter.mp hg
          exact ⟨g, row, rfl, (Bool.and_eq_true_iff.mp both).2⟩
        · rintro ⟨g, hg, rfl, below⟩
          refine ⟨g, List.mem_filter.mpr ⟨hg, ?_⟩, rfl⟩
          rw [tree.subtree_owner hf hg below, below]
          simp
      rw [mem, Db.statsSubtree, List.mem_cons]
      change id = f.id ∨ id ∈ (db.foldersBelow f.ownerId (childPath (some f))).map (·.id) ↔ _
      rw [listed]
      constructor
      · rintro (rfl | ⟨g, hg, rfl, below⟩)
        · exact ⟨f, hf, rfl, .inl rfl⟩
        · exact ⟨g, hg, rfl, .inr below⟩
      · rintro ⟨g, hg, rfl, same | below⟩
        · exact .inl same
        · exact .inr ⟨g, hg, rfl, below⟩

end

/-! ## Runs -/

/-- Requests name folders by texts. -/
inductive FolderRequest
  | createFolder (userId name : String) (parentId : Option String) (id : Uuid)
  | moveFolder (userId folderId : String) (parentId : Option String)
  | deleteFolder (userId folderId : String) (cascade : Bool) (now : Time)

section
variable (readUuid : String → Option Uuid) (increment : Increment)

def FolderRequest.handle (w : World) : FolderRequest → Option World
  | .createFolder userId name parentId id => do
    let parentId ← readParentId readUuid parentId
    GigaPdf.createFolder w userId name parentId id
  | .moveFolder userId folderId parentId => moveFolderRequest readUuid w userId folderId parentId
  | .deleteFolder userId folderId cascade now => do
    let id ← readUuid folderId
    GigaPdf.deleteFolder increment w userId id cascade now

/-- A move does not name one folder in two ways, and it spells the id of the folder as the paths do,
or nothing lies below. -/
def SoundFolderRequest (w : World) : FolderRequest → Prop
  | .moveFolder userId folderId parentId =>
    ∀ m ∈ w.db.readMove readUuid userId folderId parentId, m.parentId ≠ some m.folder.id ∧
      (m.folderId = m.folder.id.text ∨
        w.db.properDescendants m.folder = [] ∧ w.db.descendantsOf m = [])
  | .createFolder .. | .deleteFolder .. => True

instance (w : World) (r : FolderRequest) : Decidable (SoundFolderRequest readUuid w r) := by
  cases r <;> unfold SoundFolderRequest <;> infer_instance

variable {readUuid increment}

theorem FolderTree.handle {w w' : World} (tree : FolderTree w.db) {r : FolderRequest}
    (sound : SoundFolderRequest readUuid w r) (h : r.handle readUuid increment w = some w') :
    FolderTree w'.db := by
  cases r with
  | createFolder userId name parentId id =>
    obtain ⟨parentId, -, h⟩ := Option.bind_eq_some_iff.mp h
    exact tree.createFolder rfl h
  | moveFolder userId folderId parentId =>
    obtain ⟨m, read, rfl⟩ := Option.map_eq_some_iff.mp h
    obtain ⟨valid, folder, parent⟩ := readMove_spec read
    obtain ⟨proper, spelled⟩ := sound m read
    refine tree.moveFolderRequest valid ⟨folder, parent, proper, ?_, ?_⟩
    · obtain spelled | ⟨empty, unselected⟩ := spelled
      · exact FolderMove.descendantsOf_eq valid folder parent spelled
      · rw [empty, unselected]
    · exact spelled.symm.imp_left And.right
  | deleteFolder userId folderId cascade now =>
    obtain ⟨id, -, h⟩ := Option.bind_eq_some_iff.mp h
    exact tree.deleteFolder rfl h

theorem folderTree_empty {db : Db} (empty : db.folders.rows = []) : FolderTree db := by
  constructor <;> rw [empty] <;> exact fun f hf => absurd hf List.not_mem_nil

/-- From no folders on, requests that spell the ids as the paths do keep paths and parents one
tree. -/
theorem folder_paths_are_ancestors {start w : World} (empty : start.db.folders.rows = [])
    (run : Reaches (FolderRequest.handle readUuid increment) (SoundFolderRequest readUuid) start w) :
    FolderPaths w.db :=
  (run.invariant (P := fun w => FolderTree w.db) (fun _ _ _ tree sound h => tree.handle sound h)
    (folderTree_empty empty)).paths

end

/-- An id in capital letters is the id in small ones. -/
def readAnyCase (text : String) : Option Uuid :=
  let lower := String.ofList (Text.lower text.toList)
  if h : lower ≠ "" ∧ '/' ∉ lower.toList then some ⟨lower, h.1, h.2⟩ else none

/-- A folder with a sub-folder is moved into another one, which is named in capital letters. -/
theorem folder_paths_are_ancestors_moved : ∃ w : World, FolderPaths w.db ∧
    w.db.folders.rows.map (fun f => (f.id.text, f.path)) =
      [("c", "/b/a/"), ("b", "/"), ("a", "/b/")] := by
  obtain ⟨w, run, paths⟩ := exists_reaches_of_runAll
    (FolderRequest.handle readAnyCase clampedIncrement) (SoundFolderRequest readAnyCase) World.empty
    [.createFolder "ana" "A" none (uuid "a"), .createFolder "ana" "B" none (uuid "b"),
      .createFolder "ana" "C" (some "a") (uuid "c"), .moveFolder "ana" "a" (some "B")]
    (fun w => w.db.folders.rows.map (fun f => (f.id.text, f.path)) =
      [("c", "/b/a/"), ("b", "/"), ("a", "/b/")]) (by decide)
  exact ⟨w, folder_paths_are_ancestors rfl run, paths⟩

/-- A folder that is named in capital letters is moved into itself. -/
theorem folder_moved_into_itself : ∃ w : World,
    Reaches (FolderRequest.handle readAnyCase clampedIncrement) always World.empty w ∧
    w.db.parentOf (uuid "a") = some (uuid "a") ∧ ¬FolderPaths w.db := by
  obtain ⟨w, run, own, f, hf, hid⟩ := exists_reaches_of_runAll
    (FolderRequest.handle readAnyCase clampedIncrement) always World.empty
    [.createFolder "ana" "A" none (uuid "a"), .moveFolder "ana" "A" (some "a")]
    (fun w => w.db.parentOf (uuid "a") = some (uuid "a") ∧
      ∃ f ∈ w.db.folders.rows, f.id = uuid "a") (by decide)
  refine ⟨w, run, own, fun paths => paths.acyclic f hf (.single ?_)⟩
  rw [hid]
  exact own

end GigaPdf
