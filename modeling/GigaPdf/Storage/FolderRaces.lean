import GigaPdf.Storage.FolderTree

/-!
# Interleaved moves and creations of folders

A move and a creation read folders without locking them, and write later what follows from the rows
that they have read.
-/

namespace GigaPdf

open Ancestry Runs

/-- What a request has read so far. -/
inductive FolderCall
  | moving (m : FolderMove)
  | selected (m : FolderMove) (descendants : List Folder)
  | creating (name : String) (parent : Option Folder)
  | ended
deriving DecidableEq

structure FolderRaces where
  db : Db
  calls : List FolderCall

/-- A session does not flush before it commits, and what a flush has written is locked until then:
both are one step. -/
inductive FolderStep
  | readMove (folderId : String) (parentId : Option String)
  | select (n : Nat)
  | commitMove (n : Nat)
  | readParent (name : String) (parentId : Option String)
  | insert (n : Nat) (id : Uuid)
  | fail (n : Nat)

namespace FolderRaces

def start (db : Db) : FolderRaces := ⟨db, []⟩

def add (r : FolderRaces) (call : FolderCall) : FolderRaces := { r with calls := r.calls ++ [call] }

def setCall (r : FolderRaces) (n : Nat) (call : FolderCall) (db : Db) : FolderRaces :=
  ⟨db, r.calls.set n call⟩

section
variable (readUuid : String → Option Uuid) (userId : String)

def step (r : FolderRaces) : FolderStep → Option FolderRaces
  | .readMove folderId parentId =>
    (r.db.readMove readUuid userId folderId parentId).map fun m => r.add (.moving m)
  | .select n =>
    match r.calls[n]? with
    | some (.moving m) => some (r.setCall n (.selected m (r.db.descendantsOf m)) r.db)
    | _ => none
  | .commitMove n =>
    match r.calls[n]? with
    | some (.selected m descendants) =>
      some (r.setCall n .ended (r.db.writeMove m descendants))
    | _ => none
  | .readParent name parentId => do
    let target ← readParentId readUuid parentId
    let parent ← r.db.targetFolder target userId
    some (r.add (.creating name parent))
  | .insert n id =>
    match r.calls[n]? with
    | some (.creating name parent) =>
      (r.db.folders.insert? ⟨id, name, userId, parent.map (·.id), childPath parent⟩).map
        fun folders => r.setCall n .ended { r.db with folders := folders }
    | _ => none
  | .fail n => some (r.setCall n .ended r.db)

end

end FolderRaces

/-! ## Requests that are not disturbed -/

instance (m : FolderMove) (db : Db) (selected : List Folder) : Decidable (m.Fits db selected) :=
  decidable_of_iff
    (db.folders.find? m.folder.id = some m.folder ∧
      (∀ p ∈ m.parent, db.folders.find? p.id = some p) ∧ m.parentId ≠ some m.folder.id ∧
      selected = db.properDescendants m.folder ∧
      (selected = [] ∨ m.folderId = m.folder.id.text))
    ⟨fun ⟨folder, parent, proper, below, spelled⟩ => ⟨folder, parent, proper, below, spelled⟩,
      fun fits => ⟨fits.folder, fits.parent, fits.proper, fits.below, fits.spelled⟩⟩

/-- What the request has read is still so. -/
def FolderCall.Undisturbed (db : Db) : FolderCall → Prop
  | .selected m descendants => m.Fits db descendants
  | .creating _ parent => ∀ p ∈ parent, db.folders.find? p.id = some p
  | .moving _ | .ended => True

instance (db : Db) (call : FolderCall) : Decidable (call.Undisturbed db) := by
  cases call <;> unfold FolderCall.Undisturbed <;> infer_instance

/-- A request writes while what it has read is still so. -/
def UndisturbedFolderStep (r : FolderRaces) : FolderStep → Prop
  | .commitMove n | .insert n _ => ∀ call ∈ r.calls[n]?, call.Undisturbed r.db
  | .readMove .. | .select _ | .readParent .. | .fail _ => True

instance (r : FolderRaces) (s : FolderStep) : Decidable (UndisturbedFolderStep r s) := by
  cases s <;> unfold UndisturbedFolderStep <;> infer_instance

/-! ## What a step keeps -/

def FolderCall.Valid (userId : String) : FolderCall → Prop
  | .moving m | .selected m _ => m.Valid
  | .creating _ parent => ∀ p ∈ parent, p.ownerId = userId
  | .ended => True

namespace FolderRaces

variable {readUuid : String → Option Uuid} {userId : String} {r t : FolderRaces}

structure Keeps (userId : String) (r : FolderRaces) : Prop where
  tree : FolderTree r.db
  calls : ∀ call ∈ r.calls, call.Valid userId

theorem Keeps.add (kept : Keeps userId r) {call : FolderCall} (valid : call.Valid userId) :
    Keeps userId (r.add call) := by
  refine ⟨kept.tree, fun other mem => ?_⟩
  obtain mem | last := List.mem_append.mp mem
  · exact kept.calls other mem
  · rw [List.mem_singleton.mp last]
    exact valid

theorem Keeps.setCall (kept : Keeps userId r) {db : Db} (tree : FolderTree db) (n : Nat)
    {call : FolderCall} (valid : call.Valid userId) : Keeps userId (r.setCall n call db) := by
  refine ⟨tree, fun other mem => ?_⟩
  obtain mem | rfl := List.mem_or_eq_of_mem_set mem
  · exact kept.calls other mem
  · exact valid

theorem Keeps.commitMove (kept : Keeps userId r) {n : Nat}
    (undisturbed : UndisturbedFolderStep r (.commitMove n))
    (h : r.step readUuid userId (.commitMove n) = some t) : Keeps userId t := by
  simp only [step] at h
  split at h
  · rename_i m descendants call
    cases h
    have valid : m.Valid := kept.calls _ (List.mem_of_getElem? call)
    exact kept.setCall (kept.tree.moveFolderRequest valid (undisturbed _ call)) n trivial
  · cases h

theorem Keeps.insert (kept : Keeps userId r) {n : Nat} {id : Uuid}
    (undisturbed : UndisturbedFolderStep r (.insert n id))
    (h : r.step readUuid userId (.insert n id) = some t) : Keeps userId t := by
  simp only [step] at h
  split at h
  · rename_i name parent call
    obtain ⟨folders, inserted, rfl⟩ := Option.map_eq_some_iff.mp h
    have owner : ∀ p ∈ parent, p.ownerId = userId := kept.calls _ (List.mem_of_getElem? call)
    have row : ∀ p ∈ parent, r.db.folders.find? p.id = some p := undisturbed _ call
    have target : r.db.targetFolder (parent.map (·.id)) userId = some parent :=
      targetFolder_eq_some.mpr ⟨rfl, fun p hp => ⟨row p hp, owner p hp⟩⟩
    exact kept.setCall (kept.tree.insert target inserted) n trivial
  · cases h

theorem Keeps.step (kept : Keeps userId r) {s : FolderStep}
    (undisturbed : UndisturbedFolderStep r s) (h : r.step readUuid userId s = some t) :
    Keeps userId t := by
  cases s with
  | readMove folderId parentId =>
    obtain ⟨m, read, rfl⟩ := Option.map_eq_some_iff.mp h
    exact kept.add (readMove_spec read).1
  | select n =>
    simp only [FolderRaces.step] at h
    split at h
    · rename_i m call
      cases h
      have valid : m.Valid := kept.calls _ (List.mem_of_getElem? call)
      exact kept.setCall kept.tree n valid
    · cases h
  | commitMove n => exact kept.commitMove undisturbed h
  | readParent name parentId =>
    simp only [FolderRaces.step, Option.bind_eq_bind, Option.bind_eq_some_iff,
      Option.some.injEq] at h
    obtain ⟨target, -, parent, read, rfl⟩ := h
    exact kept.add fun p hp => ((targetFolder_eq_some.mp read).2 p hp).2
  | insert n id => exact kept.insert undisturbed h
  | fail n =>
    cases h
    exact kept.setCall kept.tree n trivial

end FolderRaces

/-- Moves and creations that are not disturbed, in any interleaving, keep paths and parents one
tree. -/
theorem interleaved_moves_keep_paths {readUuid : String → Option Uuid} {userId : String} {db : Db}
    (tree : FolderTree db) {r : FolderRaces}
    (run : Reaches (FolderRaces.step readUuid userId) UndisturbedFolderStep (.start db) r) :
    FolderPaths r.db :=
  (run.invariant (P := FolderRaces.Keeps userId)
    (fun _ _ _ kept undisturbed h => kept.step undisturbed h)
    ⟨tree, fun _ mem => absurd mem List.not_mem_nil⟩).tree.paths

/-- A folder is moved with its sub-folder while another one is created next to it. -/
theorem interleaved_moves_keep_paths_apart : ∃ r : FolderRaces, FolderPaths r.db ∧
    r.db.folders.rows.map (fun f => (f.id.text, f.path)) =
      [("d", "/b/"), ("c", "/b/a/"), ("a", "/b/"), ("b", "/")] := by
  obtain ⟨r, run, paths⟩ := exists_reaches_of_runAll (FolderRaces.step readAnyCase "ana")
    UndisturbedFolderStep (.start World.empty.db)
    [.readParent "A" none, .readParent "B" none, .insert 1 (uuid "b"), .insert 0 (uuid "a"),
      .readParent "C" (some "a"), .insert 2 (uuid "c"),
      .readMove "a" (some "b"), .readParent "D" (some "b"), .select 3, .insert 4 (uuid "d"),
      .commitMove 3]
    (fun r => r.db.folders.rows.map (fun f => (f.id.text, f.path)) =
      [("d", "/b/"), ("c", "/b/a/"), ("a", "/b/"), ("b", "/")]) (by decide)
  exact ⟨r, interleaved_moves_keep_paths (folderTree_empty rfl) run, paths⟩

/-- Two folders are moved into each other, and no request is left that could repair it. -/
theorem folders_moved_into_each_other : ∃ r : FolderRaces,
    Reaches (FolderRaces.step readAnyCase "ana") always (.start World.empty.db) r ∧
    (∀ call ∈ r.calls, call = .ended) ∧
    r.db.lockFolderSubtree (uuid "a") "ana" = none ∧ ¬FolderPaths r.db := by
  obtain ⟨r, run, ended, endless, forth, back, f, hf, hid⟩ := exists_reaches_of_runAll
    (FolderRaces.step readAnyCase "ana") always (.start World.empty.db)
    [.readParent "A" none, .readParent "B" none, .insert 0 (uuid "a"), .insert 1 (uuid "b"),
      .readMove "a" (some "b"), .readMove "b" (some "a"), .select 2, .select 3,
      .commitMove 2, .commitMove 3]
    (fun r => (∀ call ∈ r.calls, call = .ended) ∧
      r.db.lockFolderSubtree (uuid "a") "ana" = none ∧
      r.db.parentOf (uuid "a") = some (uuid "b") ∧ r.db.parentOf (uuid "b") = some (uuid "a") ∧
      ∃ f ∈ r.db.folders.rows, f.id = uuid "a") (by decide)
  refine ⟨r, run, ended, endless, fun paths => paths.acyclic f hf ?_⟩
  rw [hid]
  exact .tail (.single forth) back

end GigaPdf
