import Mathlib.Data.List.Basic
import Mathlib.Data.List.Perm.Basic
import Mathlib.Data.List.Range
import GigaPdf.Lib.Runs
import GigaPdf.Lib.Upsert

/-!
# The pool of page canvases

An acquire looks for a live canvas, waits for the Fabric module, and then binds a canvas to its
page. Between its two halves other acquires, releases and the disposal of the pool may run.
-/

namespace GigaPdf

open Runs Upsert

/-- A canvas is known by how many were created before it. -/
abbrev CanvasId := Nat

structure PoolEntry where
  canvas : CanvasId
  lastUsed : Nat
deriving DecidableEq

def defaultMaxLive : Int := 12

/-- `created` and `gone` are the canvases that were ever created, and those that were disposed. -/
structure PageRenderPool where
  maxLive : Nat
  live : List (Nat × PoolEntry)
  freeList : List CanvasId
  tick : Nat
  disposed : Bool
  created : Nat
  gone : List CanvasId
deriving DecidableEq

namespace PageRenderPool

def new (maxLive : Option Int) : PageRenderPool :=
  ⟨(max 1 (maxLive.getD defaultMaxLive)).toNat, [], [], 0, false, 0, []⟩

def liveEntry (pool : PageRenderPool) (index : Nat) : Option PoolEntry :=
  (pool.live.find? fun e => e.1 = index).map Prod.snd

def olderOf : Option (Nat × PoolEntry) → Nat × PoolEntry → Nat × PoolEntry
  | none, e => e
  | some victim, e => if e.2.lastUsed < victim.2.lastUsed then e else victim

/-- The entry with the smallest stamp, the earliest of them. -/
def leastRecentlyUsed (live : List (Nat × PoolEntry)) : Option (Nat × PoolEntry) :=
  live.foldl (fun victim e => some (olderOf victim e)) none

def evictLeastRecentlyUsed (pool : PageRenderPool) : PageRenderPool :=
  match leastRecentlyUsed pool.live with
  | none => pool
  | some victim => { pool with
      live := pool.live.filter fun e => e.1 ≠ victim.1
      gone := pool.gone ++ [victim.2.canvas] }

/-- `live.set(index, …)` with the next stamp. -/
def setLive (pool : PageRenderPool) (index : Nat) (canvas : CanvasId) : PageRenderPool :=
  { pool with
    live := upsert (fun e => e.1 = index) (fun _ => (index, ⟨canvas, pool.tick + 1⟩))
      (index, ⟨canvas, pool.tick + 1⟩) pool.live
    tick := pool.tick + 1 }

def makeRoom (pool : PageRenderPool) : PageRenderPool :=
  if pool.maxLive ≤ pool.live.length then pool.evictLeastRecentlyUsed else pool

/-- The second half of `acquire`, after the Fabric module has been loaded. -/
def bind (pool : PageRenderPool) (index : Nat) : PageRenderPool × CanvasId :=
  match pool.makeRoom.freeList with
  | recycled :: rest =>
    (setLive { pool.makeRoom with freeList := rest } index recycled, recycled)
  | [] =>
    (setLive { pool.makeRoom with created := pool.makeRoom.created + 1 } index
      pool.makeRoom.created, pool.makeRoom.created)

/-- A canvas that cannot be cleared is disposed. -/
def recycle (pool : PageRenderPool) (canvas : CanvasId) (clears : Bool) : PageRenderPool :=
  if clears then { pool with freeList := pool.freeList ++ [canvas] }
  else { pool with gone := pool.gone ++ [canvas] }

def release (pool : PageRenderPool) (index : Nat) (clears : Bool) : PageRenderPool :=
  match pool.liveEntry index with
  | none => pool
  | some entry =>
    recycle { pool with live := pool.live.filter fun e => e.1 ≠ index } entry.canvas clears

def dispose (pool : PageRenderPool) : PageRenderPool :=
  if pool.disposed then pool
  else { pool with
    disposed := true
    gone := pool.gone ++ (pool.live.map fun e => e.2.canvas) ++ pool.freeList
    live := []
    freeList := [] }

end PageRenderPool

/-! ## Interleaved calls -/

inductive AcquireOutcome
  | waiting
  | returned (canvas : CanvasId)
  | failed
deriving DecidableEq

def AcquireOutcome.canvas? : AcquireOutcome → Option CanvasId
  | .returned canvas => some canvas
  | .waiting | .failed => none

/-- `peers` are the calls that were waiting when this one was made. -/
structure AcquireCall where
  index : Nat
  peers : List Nat
  outcome : AcquireOutcome
deriving DecidableEq

/-- The pool, and the acquires in the order in which they were made. -/
structure PoolRun where
  pool : PageRenderPool
  calls : List AcquireCall
deriving DecidableEq

inductive PoolEvent
  /-- The first half of `acquire`. -/
  | lookup (index : Nat)
  /-- Its second half. -/
  | bind (call : Nat)
  /-- The Fabric module cannot be loaded. -/
  | reject (call : Nat)
  | release (index : Nat) (clears : Bool)
  | dispose
deriving DecidableEq

namespace PoolRun

def waiting (calls : List AcquireCall) : List Nat :=
  (List.range calls.length).filter fun n => (calls[n]?).any fun call => call.outcome = .waiting

def settle (calls : List AcquireCall) (n : Nat) (outcome : AcquireOutcome) : List AcquireCall :=
  calls.modify n fun call => { call with outcome }

def lookup (s : PoolRun) (index : Nat) : PoolRun :=
  if s.pool.disposed then
    { s with calls := s.calls ++ [⟨index, [], .failed⟩] }
  else
    match s.pool.liveEntry index with
    | some entry =>
      { pool := s.pool.setLive index entry.canvas
        calls := s.calls ++ [⟨index, [], .returned entry.canvas⟩] }
    | none => { s with calls := s.calls ++ [⟨index, waiting s.calls, .waiting⟩] }

def step (s : PoolRun) : PoolEvent → Option PoolRun
  | .lookup index => some (s.lookup index)
  | .bind n =>
    match s.calls[n]? with
    | some ⟨index, _, .waiting⟩ =>
      some ⟨(s.pool.bind index).1, settle s.calls n (.returned (s.pool.bind index).2)⟩
    | some ⟨_, _, .returned _⟩ | some ⟨_, _, .failed⟩ | none => none
  | .reject n =>
    match s.calls[n]? with
    | some ⟨_, _, .waiting⟩ => some { s with calls := settle s.calls n .failed }
    | some ⟨_, _, .returned _⟩ | some ⟨_, _, .failed⟩ | none => none
  | .release index clears => some { s with pool := s.pool.release index clears }
  | .dispose => some { s with pool := s.pool.dispose }

def start (maxLive : Option Int) : PoolRun := ⟨.new maxLive, []⟩

/-- The two calls waited at the same time for the same page. -/
def Together (calls : List AcquireCall) (m n : Nat) : Prop :=
  ∃ a ∈ calls[m]?, ∃ b ∈ calls[n]?, a.index = b.index ∧ (m ∈ b.peers ∨ n ∈ a.peers)

instance (calls : List AcquireCall) (m n : Nat) : Decidable (Together calls m n) := by
  unfold Together
  infer_instance

def canvasOf (calls : List AcquireCall) (n : Nat) : Option CanvasId :=
  calls[n]?.bind fun call => call.outcome.canvas?

/-- Each canvas is live for one page, free or disposed; the cap holds; acquires that waited together
for a page get one canvas; and nothing is left after the disposal. -/
structure WellKept (s : PoolRun) : Prop where
  placed : (s.pool.live.map (fun e => e.2.canvas) ++ s.pool.freeList ++ s.pool.gone).Perm
    (List.range s.pool.created)
  capped : s.pool.live.length + s.pool.freeList.length ≤ s.pool.maxLive
  same : ∀ m n, Together s.calls m n → ∀ c ∈ canvasOf s.calls m, ∀ d ∈ canvasOf s.calls n, c = d
  cleared : s.pool.disposed = true → ∀ canvas < s.pool.created, canvas ∈ s.pool.gone

/-- A canvas is bound before the disposal only, and where an acquire that waited at the same time
for the page has returned, its canvas is the next free one. -/
def SoundStep (s : PoolRun) : PoolEvent → Prop
  | .bind n => s.pool.disposed = false ∧ ∀ m < s.calls.length, Together s.calls m n →
      ∀ canvas ∈ canvasOf s.calls m, s.pool.freeList.head? = some canvas
  | .lookup _ | .reject _ | .release _ _ | .dispose => True

instance (s : PoolRun) : ∀ e, Decidable (SoundStep s e)
  | .bind n => by
    unfold SoundStep
    infer_instance
  | .lookup _ | .reject _ | .release _ _ | .dispose => .isTrue trivial

end PoolRun

/-! ## What the pool keeps -/

namespace PageRenderPool

def places (pool : PageRenderPool) : List CanvasId :=
  pool.live.map (fun e => e.2.canvas) ++ pool.freeList ++ pool.gone

structure Kept (pool : PageRenderPool) : Prop where
  placed : pool.places.Perm (List.range pool.created)
  capped : pool.live.length + pool.freeList.length ≤ pool.maxLive
  room : 1 ≤ pool.maxLive
  pages : (pool.live.map Prod.fst).Nodup
  emptied : pool.disposed = true → pool.live = [] ∧ pool.freeList = []

variable {pool : PageRenderPool}

theorem new_kept (maxLive : Option Int) : (new maxLive).Kept :=
  ⟨List.Perm.refl _, Nat.zero_le _, by simp only [new]; omega, List.nodup_nil,
    fun _ => ⟨rfl, rfl⟩⟩

theorem Kept.lt_created (kept : pool.Kept) {canvas : CanvasId} (mem : canvas ∈ pool.places) :
    canvas < pool.created :=
  List.mem_range.mp (kept.placed.mem_iff.mp mem)

theorem mem_of_liveEntry {index : Nat} {entry : PoolEntry}
    (found : pool.liveEntry index = some entry) : (index, entry) ∈ pool.live := by
  obtain ⟨e, he, rfl⟩ := Option.map_eq_some_iff.mp found
  have key : e.1 = index := by simpa using List.find?_some he
  rw [← key]
  exact List.mem_of_find?_eq_some he

theorem absent_of_liveEntry {index : Nat} (missing : pool.liveEntry index = none) :
    ∀ e ∈ pool.live, e.1 ≠ index := by
  intro e mem same
  exact List.find?_eq_none.mp (Option.map_eq_none_iff.mp missing) e mem (by simpa using same)

theorem leastRecentlyUsed_of_ne_nil {live : List (Nat × PoolEntry)} (some_live : live ≠ []) :
    ∃ victim ∈ live, leastRecentlyUsed live = some victim := by
  induction live using List.reverseRecOn with
  | nil => exact absurd rfl some_live
  | append_singleton live e ih =>
    have last : leastRecentlyUsed (live ++ [e]) = some (olderOf (leastRecentlyUsed live) e) := by
      rw [leastRecentlyUsed, List.foldl_append]
      rfl
    refine ⟨_, ?_, last⟩
    by_cases empty : live = []
    · subst empty
      exact List.mem_singleton.mpr rfl
    · obtain ⟨victim, mem, found⟩ := ih empty
      rw [found, olderOf]
      split
      · exact List.mem_append_right _ (List.mem_singleton.mpr rfl)
      · exact List.mem_append_left _ mem

/-- What is taken out of the live canvases is one canvas. -/
theorem live_perm {live : List (Nat × PoolEntry)} (pages : (live.map Prod.fst).Nodup)
    {e : Nat × PoolEntry} (mem : e ∈ live) :
    live.Perm (e :: live.filter fun x => x.1 ≠ e.1) := by
  induction live with
  | nil => cases mem
  | cons first rest ih =>
    obtain ⟨absent, pages⟩ := List.nodup_cons.mp pages
    obtain rfl | mem := List.mem_cons.mp mem
    · have kept : rest.filter (fun x => x.1 ≠ e.1) = rest := by
        refine List.filter_eq_self.mpr fun x hx => ?_
        have other : x.1 ≠ e.1 := fun same => absent (same ▸ List.mem_map_of_mem hx)
        simpa using other
      rw [List.filter_cons_of_neg (by simp), kept]
    · have other : first.1 ≠ e.1 := fun same => absent (same ▸ List.mem_map_of_mem mem)
      rw [List.filter_cons_of_pos (by simpa using other)]
      exact ((ih pages mem).cons first).trans (List.Perm.swap _ _ _)

theorem pages_filter {live : List (Nat × PoolEntry)} (pages : (live.map Prod.fst).Nodup)
    (p : Nat × PoolEntry → Bool) : ((live.filter p).map Prod.fst).Nodup :=
  pages.sublist (List.filter_sublist.map Prod.fst)

/-- A live canvas that is disposed or freed leaves its page and is in one place. -/
theorem Kept.remove (kept : pool.Kept) {e : Nat × PoolEntry} (mem : e ∈ pool.live) (clears : Bool) :
    (recycle { pool with live := pool.live.filter fun x => x.1 ≠ e.1 } e.2.canvas clears).Kept := by
  have taken := live_perm kept.pages mem
  have shorter := taken.length_eq
  have capped := kept.capped
  rw [List.length_cons] at shorter
  have live_mem : pool.disposed = true → False := fun disposed => by
    rw [(kept.emptied disposed).1] at mem
    cases mem
  have placed : pool.places.Perm ((pool.live.filter fun x => x.1 ≠ e.1).map
      (fun x => x.2.canvas) ++ pool.freeList ++ pool.gone ++ [e.2.canvas]) := by
    have moved := (taken.map fun x => x.2.canvas).append_right (pool.freeList ++ pool.gone)
    rw [← List.append_assoc] at moved
    refine moved.trans ?_
    rw [List.map_cons, List.cons_append, List.append_assoc _ pool.freeList]
    exact (List.perm_append_singleton _ _).symm
  rw [recycle]
  cases clears with
  | true =>
    refine ⟨List.Perm.trans ?_ (placed.symm.trans kept.placed), ?_, kept.room,
      pages_filter kept.pages _, fun disposed => (live_mem disposed).elim⟩
    · simp only [places, if_true, List.append_assoc]
      refine (List.Perm.append_left _ (List.Perm.append_left _ ?_))
      exact List.perm_append_comm
    · simp only [if_true, List.length_append, List.length_singleton]
      omega
  | false =>
    refine ⟨List.Perm.trans ?_ (placed.symm.trans kept.placed), ?_, kept.room,
      pages_filter kept.pages _, fun disposed => (live_mem disposed).elim⟩
    · simp only [places, Bool.false_eq_true, if_false, List.append_assoc]
      exact List.Perm.refl _
    · simp only [Bool.false_eq_true, if_false]
      omega

theorem release_kept (kept : pool.Kept) (index : Nat) (clears : Bool) :
    (pool.release index clears).Kept := by
  rw [release]
  cases found : pool.liveEntry index with
  | none => exact kept
  | some entry => exact kept.remove (mem_of_liveEntry found) clears

theorem dispose_kept (kept : pool.Kept) : pool.dispose.Kept := by
  rw [dispose]
  split
  · exact kept
  · refine ⟨List.Perm.trans ?_ kept.placed, Nat.zero_le _, kept.room, List.nodup_nil,
      fun _ => ⟨rfl, rfl⟩⟩
    simp only [places, List.map_nil, List.nil_append, List.append_assoc]
    rw [← List.append_assoc (pool.live.map _)]
    exact List.perm_append_comm

theorem makeRoom_spec (kept : pool.Kept) :
    pool.makeRoom.Kept ∧ pool.makeRoom.live.length < pool.makeRoom.maxLive ∧
      pool.makeRoom.freeList = pool.freeList ∧ pool.makeRoom.created = pool.created ∧
      pool.makeRoom.disposed = pool.disposed ∧ ∀ e ∈ pool.makeRoom.live, e ∈ pool.live := by
  rw [makeRoom]
  split
  · rename_i full
    have some_live : pool.live ≠ [] := by
      intro empty
      rw [empty] at full
      have room := kept.room
      simp only [List.length_nil] at full
      omega
    obtain ⟨victim, mem, found⟩ := leastRecentlyUsed_of_ne_nil some_live
    have shorter := (live_perm kept.pages mem).length_eq
    have capped := kept.capped
    rw [List.length_cons] at shorter
    rw [evictLeastRecentlyUsed, found]
    refine ⟨kept.remove mem false, ?_, rfl, rfl, rfl, fun e he => (List.mem_filter.mp he).1⟩
    simp only
    omega
  · rename_i spare
    exact ⟨kept, Nat.lt_of_not_le spare, rfl, rfl, rfl, fun e he => he⟩

theorem bind_canvas (kept : pool.Kept) (index : Nat) :
    (pool.bind index).2 = pool.freeList.head?.getD pool.created := by
  obtain ⟨-, -, free, created, -, -⟩ := makeRoom_spec kept
  rw [bind, free, created]
  cases pool.freeList <;> rfl

theorem mem_bind_live (pool : PageRenderPool) (index : Nat) :
    ∃ e ∈ (pool.bind index).1.live, e.2.canvas = (pool.bind index).2 := by
  rw [bind]
  split
  · exact ⟨_, mem_upsert_self fun _ => rfl, rfl⟩
  · exact ⟨_, mem_upsert_self fun _ => rfl, rfl⟩

theorem bind_disposed (kept : pool.Kept) (index : Nat) :
    (pool.bind index).1.disposed = pool.disposed := by
  obtain ⟨-, -, -, -, disposed, -⟩ := makeRoom_spec kept
  rw [← disposed, bind]
  split <;> rfl

/-- A canvas for a page that has none. -/
theorem setLive_of_absent {index : Nat} (absent : ∀ e ∈ pool.live, e.1 ≠ index) (canvas : CanvasId) :
    (pool.setLive index canvas).live = pool.live ++ [(index, ⟨canvas, pool.tick + 1⟩)] := by
  refine upsert_of_find?_none (List.find?_eq_none.mpr fun e mem => ?_)
  simpa using absent e mem

theorem pages_append {live : List (Nat × PoolEntry)} (pages : (live.map Prod.fst).Nodup)
    {index : Nat} (absent : ∀ e ∈ live, e.1 ≠ index) (entry : PoolEntry) :
    ((live ++ [(index, entry)]).map Prod.fst).Nodup := by
  rw [List.map_append, List.map_singleton]
  refine List.nodup_append.mpr ⟨pages, List.nodup_singleton _, fun key mem other last => ?_⟩
  obtain ⟨e, he, rfl⟩ := List.mem_map.mp mem
  rw [List.mem_singleton.mp last]
  exact absent e he

/-- What is bound to a page without canvas was free or is new. -/
theorem bind_kept (kept : pool.Kept) (open_pool : pool.disposed = false) {index : Nat}
    (absent : ∀ e ∈ pool.live, e.1 ≠ index) :
    (pool.bind index).1.Kept ∧ pool.created ≤ (pool.bind index).1.created ∧
      ∀ e ∈ (pool.bind index).1.live,
        e ∈ pool.live ∨ e.1 = index ∧ e.2.canvas = (pool.bind index).2 := by
  obtain ⟨room, spare, -, created, disposed, sub⟩ := makeRoom_spec kept
  have absent : ∀ e ∈ pool.makeRoom.live, e.1 ≠ index := fun e mem => absent e (sub e mem)
  have capped := room.capped
  have open_room : pool.makeRoom.disposed = false := disposed.trans open_pool
  rw [bind, ← created]
  split
  · rename_i recycled rest free
    have live := @setLive_of_absent { pool.makeRoom with freeList := rest } index absent recycled
    refine ⟨⟨List.Perm.trans ?_ room.placed, ?_, room.room, ?_, fun h => ?_⟩, Nat.le_refl _, ?_⟩
    · simp only [places, live, free, List.map_append, List.map_singleton, List.append_assoc]
      exact List.Perm.refl _
    · simp only [live, List.length_append, List.length_singleton]
      rw [free, List.length_cons] at capped
      change _ + 1 + rest.length ≤ pool.makeRoom.maxLive
      omega
    · rw [live]
      exact pages_append room.pages absent _
    · change pool.makeRoom.disposed = true at h
      rw [open_room] at h
      cases h
    · intro e mem
      rw [live] at mem
      obtain old | new := List.mem_append.mp mem
      · exact Or.inl (sub e old)
      · rw [List.mem_singleton.mp new]
        exact Or.inr ⟨rfl, rfl⟩
  · rename_i free
    have live := @setLive_of_absent
      { pool.makeRoom with created := pool.makeRoom.created + 1 } index absent
      pool.makeRoom.created
    refine ⟨⟨?_, ?_, room.room, ?_, fun h => ?_⟩, Nat.le_succ _, ?_⟩
    · have placed := room.placed
      rw [places, free, List.append_nil] at placed
      change List.Perm _ (List.range (pool.makeRoom.created + 1))
      rw [places, live, List.range_succ, List.map_append]
      change List.Perm (_ ++ [pool.makeRoom.created] ++ pool.makeRoom.freeList ++
        pool.makeRoom.gone) _
      rw [free, List.append_nil, List.append_assoc]
      refine (List.Perm.append_left _ List.perm_append_comm).trans ?_
      rw [← List.append_assoc]
      exact placed.append_right _
    · simp only [live, List.length_append, List.length_singleton]
      change _ + 1 + pool.makeRoom.freeList.length ≤ pool.makeRoom.maxLive
      rw [free, List.length_nil]
      omega
    · rw [live]
      exact pages_append room.pages absent _
    · change pool.makeRoom.disposed = true at h
      rw [open_room] at h
      cases h
    · intro e mem
      rw [live] at mem
      obtain old | new := List.mem_append.mp mem
      · exact Or.inl (sub e old)
      · rw [List.mem_singleton.mp new]
        exact Or.inr ⟨rfl, rfl⟩

/-- A new stamp moves no canvas. -/
theorem restamp_kept (kept : pool.Kept) {index : Nat} {entry : PoolEntry}
    (found : pool.liveEntry index = some entry) :
    (pool.setLive index entry.canvas).Kept ∧
      ∀ e ∈ (pool.setLive index entry.canvas).live, ∃ old ∈ pool.live,
        e.1 = old.1 ∧ e.2.canvas = old.2.canvas := by
  obtain ⟨e, he, rfl⟩ := Option.map_eq_some_iff.mp found
  have key : e.1 = index := by simpa using List.find?_some he
  have canvases : (pool.setLive index e.2.canvas).live.map (fun e => e.2.canvas) =
      pool.live.map fun e => e.2.canvas := map_upsert_of_find?_some he rfl
  have pages : (pool.setLive index e.2.canvas).live.map Prod.fst = pool.live.map Prod.fst :=
    map_upsert_of_find?_some he key.symm
  have mem := List.mem_of_find?_eq_some he
  have length := congrArg List.length pages
  rw [List.length_map, List.length_map] at length
  refine ⟨⟨?_, ?_, kept.room, ?_, fun disposed => ?_⟩, ?_⟩
  · rw [places, canvases]
    exact kept.placed
  · rw [length]
    exact kept.capped
  · rw [pages]
    exact kept.pages
  · rw [(kept.emptied disposed).1] at mem
    cases mem
  · intro x hx
    obtain old | ⟨b, -, rfl⟩ | ⟨-, rfl⟩ := mem_upsert hx
    · exact ⟨x, old, rfl, rfl⟩
    · exact ⟨e, mem, key.symm, rfl⟩
    · exact ⟨e, mem, key.symm, rfl⟩

end PageRenderPool

namespace PoolRun

variable {s : PoolRun}

/-! ## What the calls keep -/

theorem getElem?_settle (calls : List AcquireCall) (n m : Nat) (outcome : AcquireOutcome) :
    (settle calls n outcome)[m]? =
      calls[m]?.map fun call => if n = m then { call with outcome } else call := by
  rw [settle, List.getElem?_modify]
  split <;> simp

theorem together_settle {calls : List AcquireCall} {n a b : Nat} {outcome : AcquireOutcome} :
    Together (settle calls n outcome) a b ↔ Together calls a b := by
  have kept : ∀ {m : Nat} {call : AcquireCall},
      (if n = m then { call with outcome } else call).index = call.index ∧
        (if n = m then { call with outcome } else call).peers = call.peers := by
    intro m call
    split <;> exact ⟨rfl, rfl⟩
  simp only [Together, getElem?_settle, Option.mem_def, Option.map_eq_some_iff]
  constructor
  · rintro ⟨_, ⟨x, hx, rfl⟩, _, ⟨y, hy, rfl⟩, index, peers⟩
    rw [kept.1, kept.1] at index
    rw [kept.2, kept.2] at peers
    exact ⟨x, hx, y, hy, index, peers⟩
  · rintro ⟨x, hx, y, hy, index, peers⟩
    refine ⟨_, ⟨x, hx, rfl⟩, _, ⟨y, hy, rfl⟩, ?_⟩
    rw [kept.1, kept.1, kept.2, kept.2]
    exact ⟨index, peers⟩

theorem canvasOf_settle {calls : List AcquireCall} {n m : Nat} {outcome : AcquireOutcome}
    {call : AcquireCall} (there : calls[n]? = some call) :
    canvasOf (settle calls n outcome) m = if n = m then outcome.canvas? else canvasOf calls m := by
  rw [canvasOf, getElem?_settle]
  split
  · rename_i same
    subst same
    rw [there]
    rfl
  · rw [canvasOf, Option.map_id']

theorem canvasOf_waiting {calls : List AcquireCall} {n : Nat} {index : Nat} {peers : List Nat}
    (there : calls[n]? = some ⟨index, peers, .waiting⟩) : canvasOf calls n = none := by
  rw [canvasOf, there]
  rfl

theorem Together.symm {calls : List AcquireCall} {m n : Nat} (h : Together calls m n) :
    Together calls n m := by
  obtain ⟨a, ha, b, hb, index, peers⟩ := h
  exact ⟨b, hb, a, ha, index.symm, peers.symm⟩

theorem Together.lt {calls : List AcquireCall} {m n : Nat} (h : Together calls m n) :
    m < calls.length := by
  obtain ⟨a, ha, -⟩ := h
  exact (List.getElem?_eq_some_iff.mp ha).1

theorem mem_waiting {calls : List AcquireCall} {n : Nat} :
    n ∈ waiting calls ↔ ∃ a ∈ calls[n]?, a.outcome = .waiting := by
  rw [waiting, List.mem_filter, List.mem_range, Option.any_eq_true]
  constructor
  · rintro ⟨-, a, ha, h⟩
    exact ⟨a, ha, by simpa using h⟩
  · rintro ⟨a, ha, h⟩
    exact ⟨(List.getElem?_eq_some_iff.mp ha).1, a, ha, by simpa using h⟩

/-- `peers` are earlier calls, and all that wait do so together. -/
structure Peers (calls : List AcquireCall) : Prop where
  earlier : ∀ n (a : AcquireCall), calls[n]? = some a → ∀ m ∈ a.peers, m < n
  jointly : ∀ m n (a b : AcquireCall), m < n → calls[m]? = some a → a.outcome = .waiting →
    calls[n]? = some b → b.outcome = .waiting → m ∈ b.peers

theorem Peers.settle {calls : List AcquireCall} (peers : Peers calls) {n : Nat}
    {outcome : AcquireOutcome} (over_now : outcome ≠ .waiting) :
    Peers (settle calls n outcome) := by
  have waits : ∀ {m : Nat} {call : AcquireCall},
      (if n = m then { call with outcome } else call).outcome = .waiting →
        (if n = m then { call with outcome } else call) = call := by
    intro m call h
    split at h
    · exact absurd h over_now
    · rename_i other
      rw [if_neg other]
  constructor
  · intro k a ha m mem
    rw [getElem?_settle, Option.map_eq_some_iff] at ha
    obtain ⟨x, hx, rfl⟩ := ha
    refine peers.earlier k x hx m ?_
    split at mem <;> exact mem
  · intro m k a b lt ha wa hb wb
    rw [getElem?_settle, Option.map_eq_some_iff] at ha hb
    obtain ⟨x, hx, rfl⟩ := ha
    obtain ⟨y, hy, rfl⟩ := hb
    have same_b := waits wb
    rw [waits wa] at wa
    rw [same_b] at wb ⊢
    exact peers.jointly m k x y lt hx wa hy wb

theorem getElem?_append_call {calls : List AcquireCall} {call a : AcquireCall} {n : Nat}
    (h : (calls ++ [call])[n]? = some a) :
    n < calls.length ∧ calls[n]? = some a ∨ n = calls.length ∧ a = call := by
  obtain lt | ge := Nat.lt_or_ge n calls.length
  · rw [List.getElem?_append_left lt] at h
    exact Or.inl ⟨lt, h⟩
  · rw [List.getElem?_append_right ge] at h
    obtain ⟨bound, last⟩ := List.getElem?_eq_some_iff.mp h
    have zero : n - calls.length = 0 := by
      rw [List.length_singleton] at bound
      omega
    refine Or.inr ⟨by omega, ?_⟩
    rw [← last]
    simp only [zero, List.getElem_cons_zero]

theorem Peers.append {calls : List AcquireCall} (peers : Peers calls) {call : AcquireCall}
    (waits : call.outcome = .waiting → call.peers = waiting calls)
    (alone : call.outcome ≠ .waiting → call.peers = []) : Peers (calls ++ [call]) := by
  constructor
  · intro n a ha m mem
    obtain ⟨-, ha⟩ | ⟨rfl, rfl⟩ := getElem?_append_call ha
    · exact peers.earlier n a ha m mem
    · by_cases w : a.outcome = .waiting
      · rw [waits w] at mem
        obtain ⟨x, hx, -⟩ := mem_waiting.mp mem
        exact (List.getElem?_eq_some_iff.mp hx).1
      · rw [alone w] at mem
        cases mem
  · intro m n a b lt ha wa hb wb
    obtain ⟨-, hb⟩ | ⟨rfl, rfl⟩ := getElem?_append_call hb
    · obtain ⟨-, ha⟩ | ⟨rfl, -⟩ := getElem?_append_call ha
      · exact peers.jointly m n a b lt ha wa hb wb
      · have bound := (List.getElem?_eq_some_iff.mp hb).1
        omega
    · obtain ⟨-, ha⟩ | ⟨rfl, -⟩ := getElem?_append_call ha
      · rw [waits wb]
        exact mem_waiting.mpr ⟨a, ha, wa⟩
      · omega

theorem together_append {calls : List AcquireCall} (peers : Peers calls) {call : AcquireCall}
    {m n : Nat} (h : Together (calls ++ [call]) m n) :
    Together calls m n ∨ call.peers ≠ [] ∧ (m = calls.length ∨ n = calls.length) := by
  obtain ⟨a, ha, b, hb, index, h⟩ := h
  obtain ⟨lm, old_a⟩ | ⟨rfl, rfl⟩ := getElem?_append_call ha
  · obtain ⟨ln, old_b⟩ | ⟨rfl, rfl⟩ := getElem?_append_call hb
    · exact Or.inl ⟨a, old_a, b, old_b, index, h⟩
    · refine Or.inr ⟨fun empty => ?_, Or.inr rfl⟩
      rw [empty] at h
      obtain absurd | mem := h
      · cases absurd
      · have earlier := peers.earlier m a old_a _ mem
        omega
  · refine Or.inr ⟨fun empty => ?_, Or.inl rfl⟩
    rw [empty] at h
    obtain mem | absurd := h
    · obtain ⟨ln, old_b⟩ | ⟨rfl, rfl⟩ := getElem?_append_call hb
      · have earlier := peers.earlier n b old_b _ mem
        omega
      · rw [empty] at mem
        cases mem
    · cases absurd

theorem canvasOf_append {calls : List AcquireCall} {call : AcquireCall} {n : Nat} {c : CanvasId}
    (h : canvasOf (calls ++ [call]) n = some c) :
    canvasOf calls n = some c ∨ n = calls.length ∧ call.outcome.canvas? = some c := by
  obtain ⟨a, ha, returned⟩ := Option.bind_eq_some_iff.mp h
  obtain ⟨-, old⟩ | ⟨rfl, rfl⟩ := getElem?_append_call ha
  · exact Or.inl (Option.bind_eq_some_iff.mpr ⟨a, old, returned⟩)
  · exact Or.inr ⟨rfl, returned⟩

theorem together_append_of {calls : List AcquireCall} {call : AcquireCall} {m n : Nat}
    (h : Together calls m n) : Together (calls ++ [call]) m n := by
  obtain ⟨a, ha, b, hb, h⟩ := h
  have old : ∀ {k : Nat} {x : AcquireCall}, calls[k]? = some x → (calls ++ [call])[k]? = some x := by
    intro k x hx
    rw [List.getElem?_append_left (List.getElem?_eq_some_iff.mp hx).1, hx]
  exact ⟨a, old ha, b, old hb, h⟩

theorem canvasOf_append_of {calls : List AcquireCall} {call : AcquireCall} {n : Nat} {c : CanvasId}
    (h : canvasOf calls n = some c) : canvasOf (calls ++ [call]) n = some c := by
  obtain ⟨a, ha, h⟩ := Option.bind_eq_some_iff.mp h
  refine Option.bind_eq_some_iff.mpr ⟨a, ?_, h⟩
  rw [List.getElem?_append_left (List.getElem?_eq_some_iff.mp ha).1, ha]

/-- `bound` says whose the live canvases are that a waiting call would replace. -/
structure Keeps (s : PoolRun) : Prop where
  pool : s.pool.Kept
  peers : Peers s.calls
  same : ∀ m n, Together s.calls m n → ∀ c ∈ canvasOf s.calls m, ∀ d ∈ canvasOf s.calls n, c = d
  known : ∀ n, ∀ c ∈ canvasOf s.calls n, c < s.pool.created
  bound : ∀ n (call : AcquireCall), s.calls[n]? = some call → call.outcome = .waiting →
    ∀ e ∈ s.pool.live, e.1 = call.index → ∃ m, Together s.calls m n ∧ canvasOf s.calls m = some e.2.canvas

theorem Keeps.wellKept (keeps : Keeps s) : WellKept s := by
  refine ⟨keeps.pool.placed, keeps.pool.capped, keeps.same, fun disposed canvas lt => ?_⟩
  have placed := keeps.pool.placed
  obtain ⟨live, free⟩ := keeps.pool.emptied disposed
  rw [PageRenderPool.places, live, free] at placed
  exact placed.mem_iff.mpr (List.mem_range.mpr lt)

theorem start_keeps (maxLive : Option Int) : Keeps (start maxLive) := by
  have no_call : ∀ n : Nat, ([] : List AcquireCall)[n]? = none := fun n => List.getElem?_nil
  have no_canvas : ∀ n, canvasOf [] n = none := by
    intro n
    rw [canvasOf, no_call]
    rfl
  refine ⟨PageRenderPool.new_kept maxLive, ⟨?_, ?_⟩, ?_, ?_, ?_⟩
  · intro n a ha
    rw [start, no_call] at ha
    cases ha
  · intro m n a b _ ha
    rw [start, no_call] at ha
    cases ha
  · intro m n _ c hc
    rw [start, no_canvas] at hc
    cases hc
  · intro n c hc
    rw [start, no_canvas] at hc
    cases hc
  · intro n call hcall
    rw [start, no_call] at hcall
    cases hcall

/-- A change of the pool that binds nothing. -/
theorem Keeps.with_pool (keeps : Keeps s) {pool : PageRenderPool} (kept : pool.Kept)
    (created : pool.created = s.pool.created) (live : ∀ e ∈ pool.live, e ∈ s.pool.live) :
    Keeps { s with pool } := by
  refine ⟨kept, keeps.peers, keeps.same, ?_, ?_⟩
  · intro n c hc
    rw [created]
    exact keeps.known n c hc
  · intro n call hcall waits e he
    exact keeps.bound n call hcall waits e (live e he)

theorem Keeps.release (keeps : Keeps s) (index : Nat) (clears : Bool) :
    Keeps { s with pool := s.pool.release index clears } := by
  apply keeps.with_pool (PageRenderPool.release_kept keeps.pool index clears)
  · rw [PageRenderPool.release]
    split
    · rfl
    · cases clears <;> rfl
  · intro e he
    rw [PageRenderPool.release] at he
    split at he
    · exact he
    · cases clears with
      | true => exact (List.mem_filter.mp he).1
      | false => exact (List.mem_filter.mp he).1

theorem Keeps.dispose (keeps : Keeps s) : Keeps { s with pool := s.pool.dispose } := by
  apply keeps.with_pool (PageRenderPool.dispose_kept keeps.pool)
  · rw [PageRenderPool.dispose]
    split <;> rfl
  · intro e he
    rw [PageRenderPool.dispose] at he
    split at he
    · exact he
    · cases he

theorem Keeps.reject (keeps : Keeps s) {n : Nat} {index : Nat} {peers : List Nat}
    (there : s.calls[n]? = some ⟨index, peers, .waiting⟩) :
    Keeps { s with calls := settle s.calls n .failed } := by
  have canvases : ∀ m, canvasOf (settle s.calls n .failed) m = canvasOf s.calls m := by
    intro m
    rw [canvasOf_settle there]
    split
    · rename_i same
      rw [← same, canvasOf_waiting there]
      rfl
    · rfl
  refine ⟨keeps.pool, keeps.peers.settle (by decide), ?_, ?_, ?_⟩
  · intro a b h
    rw [canvases, canvases]
    exact keeps.same a b (together_settle.mp h)
  · intro m
    rw [canvases]
    exact keeps.known m
  · intro m call hcall waits e he page
    rw [getElem?_settle, Option.map_eq_some_iff] at hcall
    obtain ⟨x, hx, rfl⟩ := hcall
    split at waits
    · cases waits
    · rename_i other
      rw [if_neg other] at page
      obtain ⟨k, h, c⟩ := keeps.bound m x hx waits e he page
      exact ⟨k, together_settle.mpr h, (canvases k).trans c⟩

theorem Keeps.append (keeps : Keeps s) {pool : PageRenderPool} {call : AcquireCall}
    (kept : pool.Kept) (created : pool.created = s.pool.created)
    (live : ∀ e ∈ pool.live, ∃ old ∈ s.pool.live, e.1 = old.1 ∧ e.2.canvas = old.2.canvas)
    (waits : call.outcome = .waiting → call.peers = waiting s.calls ∧
      ∀ e ∈ pool.live, e.1 ≠ call.index)
    (alone : call.outcome ≠ .waiting → call.peers = [])
    (known : ∀ c ∈ call.outcome.canvas?, c < pool.created) :
    Keeps ⟨pool, s.calls ++ [call]⟩ := by
  have returned : ∀ c, call.outcome.canvas? = some c → call.peers = [] := by
    intro c hc
    apply alone
    intro waits
    rw [waits] at hc
    cases hc
  have none_at : canvasOf s.calls s.calls.length = none := by
    rw [canvasOf, List.getElem?_eq_none (Nat.le_refl _)]
    rfl
  refine ⟨kept, keeps.peers.append (fun w => (waits w).1) alone, ?_, ?_, ?_⟩
  · intro m n h c hc d hd
    obtain old | ⟨some_peers, last⟩ := together_append keeps.peers h
    · obtain hc | ⟨rfl, hc⟩ := canvasOf_append hc
      · obtain hd | ⟨rfl, hd⟩ := canvasOf_append hd
        · exact keeps.same m n old c hc d hd
        · exact absurd old.symm.lt (Nat.lt_irrefl _)
      · exact absurd old.lt (Nat.lt_irrefl _)
    · exfalso
      obtain rfl | rfl := last
      · obtain hc | ⟨-, hc⟩ := canvasOf_append hc
        · rw [none_at] at hc
          cases hc
        · exact some_peers (returned c hc)
      · obtain hd | ⟨-, hd⟩ := canvasOf_append hd
        · rw [none_at] at hd
          cases hd
        · exact some_peers (returned d hd)
  · intro n c hc
    obtain hc | ⟨-, hc⟩ := canvasOf_append hc
    · rw [created]
      exact keeps.known n c hc
    · exact known c hc
  · intro n a ha w e he page
    obtain ⟨-, ha⟩ | ⟨-, rfl⟩ := getElem?_append_call ha
    · obtain ⟨old, hold, index, canvas⟩ := live e he
      obtain ⟨m, h, hm⟩ := keeps.bound n a ha w old hold (index.symm.trans page)
      rw [canvas]
      exact ⟨m, together_append_of h, canvasOf_append_of hm⟩
    · exact absurd page ((waits w).2 e he)

theorem Keeps.lookup (keeps : Keeps s) (index : Nat) : Keeps (s.lookup index) := by
  have same_live : ∀ e ∈ s.pool.live, ∃ old ∈ s.pool.live,
      e.1 = old.1 ∧ e.2.canvas = old.2.canvas := fun e he => ⟨e, he, rfl, rfl⟩
  rw [PoolRun.lookup]
  split
  · exact keeps.append keeps.pool rfl same_live (fun w => by cases w) (fun _ => rfl)
      (fun c hc => by cases hc)
  · split
    · rename_i entry found
      obtain ⟨kept, live⟩ := PageRenderPool.restamp_kept keeps.pool found
      refine keeps.append kept rfl live (fun w => by cases w) (fun _ => rfl) ?_
      rintro c ⟨⟩
      refine keeps.pool.lt_created (List.mem_append_left _ (List.mem_append_left _ ?_))
      exact List.mem_map.mpr ⟨_, PageRenderPool.mem_of_liveEntry found, rfl⟩
    · rename_i missing
      exact keeps.append keeps.pool rfl same_live
        (fun _ => ⟨rfl, PageRenderPool.absent_of_liveEntry missing⟩) (fun other => absurd rfl other)
        (fun c hc => by cases hc)

theorem Keeps.together (keeps : Keeps s) {m n : Nat} {a b : AcquireCall}
    (ha : s.calls[m]? = some a) (hb : s.calls[n]? = some b) (wa : a.outcome = .waiting)
    (wb : b.outcome = .waiting) (page : a.index = b.index) (other : m ≠ n) :
    Together s.calls m n := by
  refine ⟨a, ha, b, hb, page, ?_⟩
  obtain lt | gt := Nat.lt_or_gt_of_ne other
  · exact Or.inl (keeps.peers.jointly m n a b lt ha wa hb wb)
  · exact Or.inr (keeps.peers.jointly n m b a gt hb wb ha wa)

/-- A live canvas is not free. -/
theorem Keeps.not_free (keeps : Keeps s) {e : Nat × PoolEntry} (mem : e ∈ s.pool.live) :
    s.pool.freeList.head? ≠ some e.2.canvas := by
  intro next
  have distinct : s.pool.places.Nodup := keeps.pool.placed.nodup_iff.mpr List.nodup_range
  rw [PageRenderPool.places, List.append_assoc, List.nodup_append] at distinct
  have free : e.2.canvas ∈ s.pool.freeList := List.mem_of_mem_head? next
  exact distinct.2.2 _ (List.mem_map_of_mem mem) _ (List.mem_append_left _ free) rfl

theorem Keeps.bind (keeps : Keeps s) {n index : Nat} {peers : List Nat}
    (there : s.calls[n]? = some ⟨index, peers, .waiting⟩) (sound : SoundStep s (.bind n)) :
    Keeps ⟨(s.pool.bind index).1, settle s.calls n (.returned (s.pool.bind index).2)⟩ := by
  obtain ⟨open_pool, next⟩ := sound
  have absent : ∀ e ∈ s.pool.live, e.1 ≠ index := by
    intro e mem page
    obtain ⟨m, h, canvas⟩ := keeps.bound n _ there rfl e mem page
    exact keeps.not_free mem (next m h.lt h _ canvas)
  obtain ⟨kept, created, live⟩ := PageRenderPool.bind_kept keeps.pool open_pool absent
  have canvas := PageRenderPool.bind_canvas keeps.pool index
  have agrees : ∀ m, Together s.calls m n → ∀ c ∈ canvasOf s.calls m,
      c = (s.pool.bind index).2 := by
    intro m h c hc
    rw [canvas, next m h.lt h c hc, Option.getD_some]
  have here : ∀ c, (AcquireOutcome.returned (s.pool.bind index).2).canvas? = some c →
      c = (s.pool.bind index).2 := by
    rintro c ⟨⟩
    rfl
  refine ⟨kept, keeps.peers.settle (by simp), ?_, ?_, ?_⟩
  · intro a b h c hc d hd
    rw [together_settle] at h
    rw [canvasOf_settle there] at hc hd
    split at hc
    · rename_i eq_a
      subst eq_a
      split at hd
      · rw [here c hc, here d hd]
      · rw [here c hc, agrees b h.symm d hd]
    · split at hd
      · rename_i eq_b
        subst eq_b
        rw [here d hd, agrees a h c hc]
      · exact keeps.same a b h c hc d hd
  · intro m c hc
    rw [canvasOf_settle there] at hc
    split at hc
    · obtain ⟨e, mem, same⟩ := PageRenderPool.mem_bind_live s.pool index
      rw [here c hc, ← same]
      exact kept.lt_created (List.mem_append_left _ (List.mem_append_left _
        (List.mem_map.mpr ⟨e, mem, rfl⟩)))
    · exact (keeps.known m c hc).trans_le created
  · intro m call hcall waits e mem page
    rw [getElem?_settle, Option.map_eq_some_iff] at hcall
    obtain ⟨x, hx, rfl⟩ := hcall
    split at waits
    · cases waits
    · rename_i other
      rw [if_neg other] at page
      obtain old | ⟨new_page, new_canvas⟩ := live e mem
      · obtain ⟨k, h, hk⟩ := keeps.bound m x hx waits e old page
        have apart : n ≠ k := by
          rintro rfl
          rw [canvasOf_waiting there] at hk
          cases hk
        refine ⟨k, together_settle.mpr h, ?_⟩
        rw [canvasOf_settle there, if_neg apart]
        exact hk
      · refine ⟨n, together_settle.mpr
          (keeps.together there hx rfl waits (new_page.symm.trans page) other), ?_⟩
        rw [canvasOf_settle there, if_pos rfl, new_canvas]
        rfl

/-- What is bound otherwise is lost, or is not what the other acquire got. -/
theorem Keeps.sound_of_bind (keeps : Keeps s) {n index : Nat} {peers : List Nat}
    (there : s.calls[n]? = some ⟨index, peers, .waiting⟩)
    (after : WellKept ⟨(s.pool.bind index).1,
      settle s.calls n (.returned (s.pool.bind index).2)⟩) : SoundStep s (.bind n) := by
  constructor
  · cases disposed : s.pool.disposed with
    | false => rfl
    | true =>
      exfalso
      obtain ⟨e, mem, -⟩ := PageRenderPool.mem_bind_live s.pool index
      have live := List.mem_map_of_mem (f := fun e : Nat × PoolEntry => e.2.canvas) mem
      have created := List.mem_range.mp (after.placed.mem_iff.mp
        (List.mem_append_left _ (List.mem_append_left _ live)))
      have gone := after.cleared ((PageRenderPool.bind_disposed keeps.pool index).trans disposed)
        _ created
      have distinct := after.placed.nodup_iff.mpr List.nodup_range
      exact (List.nodup_append.mp distinct).2.2 _ (List.mem_append_left _ live) _ gone rfl
  · intro m _ h canvas hm
    have other : n ≠ m := by
      rintro rfl
      rw [canvasOf_waiting there] at hm
      cases hm
    have same := after.same m n (together_settle.mpr h) canvas
      (by rwa [canvasOf_settle there, if_neg other]) (s.pool.bind index).2
      (by rw [canvasOf_settle there, if_pos rfl]; rfl)
    have known := keeps.known m canvas hm
    rw [PageRenderPool.bind_canvas keeps.pool] at same
    cases next : s.pool.freeList.head? with
    | none =>
      rw [next, Option.getD_none] at same
      exact absurd same (Nat.ne_of_lt known)
    | some c =>
      rw [next, Option.getD_some] at same
      rw [same]

theorem Keeps.step_iff {s' : PoolRun} (keeps : Keeps s) {e : PoolEvent} (h : s.step e = some s') :
    (SoundStep s e → Keeps s') ∧ (WellKept s' → SoundStep s e) := by
  cases e with
  | lookup index =>
    cases h
    exact ⟨fun _ => keeps.lookup index, fun _ => trivial⟩
  | bind n =>
    simp only [step] at h
    split at h
    · rename_i index peers there
      cases h
      exact ⟨keeps.bind there, keeps.sound_of_bind there⟩
    · cases h
    · cases h
    · cases h
  | reject n =>
    simp only [step] at h
    split at h
    · rename_i index peers there
      cases h
      exact ⟨fun _ => keeps.reject there, fun _ => trivial⟩
    · cases h
    · cases h
    · cases h
  | release index clears =>
    cases h
    exact ⟨fun _ => keeps.release index clears, fun _ => trivial⟩
  | dispose =>
    cases h
    exact ⟨fun _ => keeps.dispose, fun _ => trivial⟩

/-- **The pool keeps every canvas** as long as no acquire ends after the disposal, and none after
another for the same page that waited with it, unless it gets the same canvas back; the first that
does loses a canvas or hands out a second one. -/
theorem canvases_kept {maxLive : Option Int} (run : Reaches step SoundStep (start maxLive) s) :
    WellKept s ∧ ∀ e s', s.step e = some s' → (WellKept s' ↔ SoundStep s e) := by
  have keeps : Keeps s := run.invariant (P := Keeps)
    (fun s e s' keeps sound h => (keeps.step_iff h).1 sound) (start_keeps maxLive)
  refine ⟨keeps.wellKept, fun e s' h => ?_⟩
  obtain ⟨sound, only⟩ := keeps.step_iff h
  exact ⟨only, fun sound_step => (sound sound_step).wellKept⟩

end PoolRun

/-- Two pages, one of them released and its canvas bound to a third page. -/
theorem canvases_kept_reused : ∃ s : PoolRun, PoolRun.WellKept s ∧ s.pool.created = 2 ∧
    PoolRun.canvasOf s.calls 2 = some 0 := by
  obtain ⟨s, run, created, canvas⟩ := exists_reaches_of_runAll PoolRun.step PoolRun.SoundStep
    (PoolRun.start (some 2)) [.lookup 0, .lookup 1, .bind 0, .bind 1, .release 0 true, .lookup 2,
      .bind 2]
    (fun s => s.pool.created = 2 ∧ PoolRun.canvasOf s.calls 2 = some 0) (by decide)
  exact ⟨s, (PoolRun.canvases_kept run).1, created, canvas⟩

/-- Two acquires of one page are waiting. The second replaces the canvas of the first, which is then
neither live nor free nor disposed. -/
theorem canvas_lost : ∃ s : PoolRun, Reaches PoolRun.step always (PoolRun.start none) s ∧
    PoolRun.canvasOf s.calls 0 = some 0 ∧ PoolRun.canvasOf s.calls 1 = some 1 ∧
    0 ∉ s.pool.places ∧ ¬PoolRun.WellKept s := by
  obtain ⟨s, run, created, first, second, lost⟩ := exists_reaches_of_runAll PoolRun.step always
    (PoolRun.start none) [.lookup 0, .lookup 0, .bind 0, .bind 1]
    (fun s => s.pool.created = 2 ∧ PoolRun.canvasOf s.calls 0 = some 0 ∧
      PoolRun.canvasOf s.calls 1 = some 1 ∧ 0 ∉ s.pool.places) (by decide)
  refine ⟨s, run, first, second, lost, fun kept => lost (kept.placed.mem_iff.mpr ?_)⟩
  rw [created]
  decide

end GigaPdf
