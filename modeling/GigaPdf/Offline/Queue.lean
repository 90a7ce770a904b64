import GigaPdf.Lib.Runs
import Mathlib.Data.List.Sort
import Mathlib.Tactic.Common

/-!
# The offline queue

`OfflineQueue`: the operations that wait for the connection, in IndexedDB, or in memory where there
is none. A write that fails for good also ends in memory, and then nobody reads it there.
-/

namespace GigaPdf

open Runs

section
variable {π : Type}

inductive PendingOperationType
  | createElement | updateElement | deleteElement | saveDocument
deriving DecidableEq

/-- Ids are UUIDs. -/
structure PendingOperation (π : Type) where
  id : Nat
  type : PendingOperationType
  payload : π
  timestamp : Int
  retries : Nat
deriving DecidableEq

def maxQueueSize : Nat := 100

/-- 24 hours. -/
def opMaxAgeMs : Int := 24 * 60 * 60 * 1000

def maxRetries : Nat := 3

def evictionCount : Nat := 10

/-- `store` is the content of IndexedDB, if there is one, in the order of its `timestamp` index. -/
structure OfflineQueue (π : Type) where
  store : Option (List (PendingOperation π))
  memoryQueue : List (PendingOperation π)

/-- How one attempt to write ends. -/
inductive WriteOutcome
  | stored | quotaExceeded | failed
deriving DecidableEq

/-- The first attempt, and the one after the eviction. -/
structure Writes where
  first : WriteOutcome
  second : WriteOutcome
deriving DecidableEq

/-- The operation ends in the store. -/
def Writes.Land (writes : Writes) : Prop :=
  writes.first = .stored ∨ writes.first = .quotaExceeded ∧ writes.second = .stored

instance (writes : Writes) : Decidable writes.Land := by
  unfold Writes.Land
  infer_instance

/-- Entries of the same time stay in the order in which they were written. -/
def insertByTime (op : PendingOperation π) (store : List (PendingOperation π)) :
    List (PendingOperation π) :=
  store.orderedInsert (fun a b => a.timestamp < b.timestamp) op

/-- What a write to IndexedDB leaves in the store and in memory, and what it evicts. -/
structure WriteResult (π : Type) where
  store : List (PendingOperation π)
  memory : List (PendingOperation π)
  evicted : List (PendingOperation π)

def idbEnqueueWithEviction (writes : Writes) (op : PendingOperation π)
    (store : List (PendingOperation π)) : WriteResult π :=
  match writes.first with
  | .stored => ⟨insertByTime op store, [], []⟩
  | .failed => ⟨store, [op], []⟩
  | .quotaExceeded =>
    let kept := store.drop evictionCount
    let evicted := store.take evictionCount
    match writes.second with
    | .stored => ⟨insertByTime op kept, [], evicted⟩
    | .quotaExceeded | .failed => ⟨kept, [op], evicted⟩

/-! ## Replay -/

def PendingOperation.expired (op : PendingOperation π) (now : Int) : Bool :=
  opMaxAgeMs < now - op.timestamp

/-- The loop of `flush`, up to the first operation whose handler raises. -/
structure Replay (π : Type) where
  handled : List (PendingOperation π)
  purged : List (PendingOperation π)
  raised : Option (PendingOperation π)
  rest : List (PendingOperation π)

/-- `handler` tells for which operations the handler does not raise. -/
def replayOps (now : Int) (handler : PendingOperation π → Bool) :
    List (PendingOperation π) → Replay π
  | [] => ⟨[], [], none, []⟩
  | op :: rest =>
    if op.expired now then
      let later := replayOps now handler rest
      { later with purged := op :: later.purged }
    else if handler op then
      let later := replayOps now handler rest
      { later with handled := op :: later.handled }
    else ⟨[], [], some op, rest⟩

attribute [grind] replayOps

/-- The operation as it is put back. -/
def retriedOp (retryTime : Int) (op : PendingOperation π) : PendingOperation π :=
  { op with retries := op.retries + 1, timestamp := retryTime }

/-! ## The calls -/

/-- What has become of an operation that is no longer waiting. -/
inductive Fate
  | handled | dequeued | evicted | purged | exhausted | cleared
deriving DecidableEq

/-- The queue, the ids of all operations that were enqueued, and the fates of those that are gone. -/
structure Offline (π : Type) where
  queue : OfflineQueue π
  enqueued : List Nat
  gone : List (Nat × Fate)

def fated (fate : Fate) (ops : List (PendingOperation π)) : List (Nat × Fate) :=
  ops.map fun op => (op.id, fate)

inductive OfflineCall (π : Type)
  | enqueue (id : Nat) (type : PendingOperationType) (payload : π) (now : Int) (writes : Writes)
  | dequeue
  | peek
  | getAll
  | size
  | clear
  | flush (now retryTime : Int) (handler : PendingOperation π → Bool) (writes : Writes)

namespace OfflineQueue

variable (q : OfflineQueue π)

/-- Every reader reads the store, if there is one. -/
def getAll : List (PendingOperation π) := q.store.getD q.memoryQueue

/-- An available store is what every reader reads. -/
theorem getAll_of_available {store : List (PendingOperation π)} (available : q.store = some store) :
    q.getAll = store := by
  rw [getAll, available, Option.getD_some]

def peek : Option (PendingOperation π) := q.getAll.head?

def size : Nat := q.getAll.length

end OfflineQueue

namespace Offline

variable (σ : Offline π)

/-- A new id is fresh. -/
def enqueue (id : Nat) (type : PendingOperationType) (payload : π) (now : Int) (writes : Writes) :
    Option (Offline π) :=
  let op : PendingOperation π := ⟨id, type, payload, now, 0⟩
  if id ∈ σ.enqueued then none
  else
    match σ.queue.store with
    | none =>
      let pushed := σ.queue.memoryQueue ++ [op]
      let excess := if maxQueueSize < pushed.length then 1 else 0
      some
        { queue := ⟨none, pushed.drop excess⟩
          enqueued := σ.enqueued ++ [id]
          gone := σ.gone ++ fated .evicted (pushed.take excess) }
    | some store =>
      let result := idbEnqueueWithEviction writes op store
      some
        { queue := ⟨some result.store, σ.queue.memoryQueue ++ result.memory⟩
          enqueued := σ.enqueued ++ [id]
          gone := σ.gone ++ fated .evicted result.evicted }

def dequeue : Offline π :=
  match σ.queue.store with
  | none =>
    { σ with
      queue := ⟨none, σ.queue.memoryQueue.tail⟩
      gone := σ.gone ++ fated .dequeued (σ.queue.memoryQueue.take 1) }
  | some store =>
    { σ with
      queue := ⟨some store.tail, σ.queue.memoryQueue⟩
      gone := σ.gone ++ fated .dequeued (store.take 1) }

def clear : Offline π :=
  { σ with
    queue := ⟨σ.queue.store.map fun _ => [], []⟩
    gone := σ.gone ++ fated .cleared (σ.queue.store.getD [] ++ σ.queue.memoryQueue) }

/-- What `flush` does with the operation that was raised for. -/
def putBack (retryTime : Int) (writes : Writes) (raised : Option (PendingOperation π)) :
    Offline π :=
  match raised with
  | none => σ
  | some op =>
    if op.retries < maxRetries then
      match σ.queue.store with
      | none =>
        { σ with queue := ⟨none, σ.queue.memoryQueue ++ [retriedOp retryTime op]⟩ }
      | some store =>
        let result := idbEnqueueWithEviction writes (retriedOp retryTime op) store
        { σ with
          queue := ⟨some result.store, σ.queue.memoryQueue ++ result.memory⟩
          gone := σ.gone ++ fated .evicted result.evicted }
    else { σ with gone := σ.gone ++ fated .exhausted [op] }

def flush (now retryTime : Int) (handler : PendingOperation π → Bool) (writes : Writes) :
    Offline π :=
  let done := replayOps now handler σ.queue.getAll
  let replayed : Offline π :=
    { σ with
      queue :=
        match σ.queue.store with
        | none => ⟨none, done.rest⟩
        | some _ => ⟨some done.rest, σ.queue.memoryQueue⟩
      gone := σ.gone ++ fated .handled done.handled ++ fated .purged done.purged }
  replayed.putBack retryTime writes done.raised

def step (σ : Offline π) : OfflineCall π → Option (Offline π)
  | .enqueue id type payload now writes => σ.enqueue id type payload now writes
  | .dequeue => some σ.dequeue
  | .peek | .getAll | .size => some σ
  | .clear => some σ.clear
  | .flush now retryTime handler writes => some (σ.flush now retryTime handler writes)

end Offline

/-! ## What the calls keep -/

def ids (ops : List (PendingOperation π)) : List Nat := ops.map PendingOperation.id

theorem ids_append (first second : List (PendingOperation π)) :
    ids (first ++ second) = ids first ++ ids second := List.map_append

theorem ids_perm {first second : List (PendingOperation π)} (perm : first.Perm second) :
    (ids first).Perm (ids second) := perm.map _

theorem fated_ids (fate : Fate) (ops : List (PendingOperation π)) :
    (fated fate ops).map Prod.fst = ids ops := by
  rw [fated, List.map_map]
  rfl

/-- A write keeps all operations, in the store, in memory, or among the evicted. -/
theorem idbEnqueueWithEviction_perm (writes : Writes) (op : PendingOperation π)
    (store : List (PendingOperation π)) :
    ((idbEnqueueWithEviction writes op store).evicted ++
      ((idbEnqueueWithEviction writes op store).store ++
        (idbEnqueueWithEviction writes op store).memory)).Perm (op :: store) := by
  have split : (store.take evictionCount ++ (op :: store.drop evictionCount)).Perm
      (op :: store) := by
    apply List.perm_middle.trans
    rw [List.take_append_drop]
  obtain ⟨first, second⟩ := writes
  cases first with
  | stored =>
    simp only [idbEnqueueWithEviction, List.nil_append, List.append_nil]
    exact List.perm_orderedInsert _ _ _
  | failed => exact List.perm_append_singleton _ _
  | quotaExceeded =>
    cases second with
    | stored =>
      simp only [idbEnqueueWithEviction, List.append_nil]
      exact ((List.perm_orderedInsert _ _ _).append_left _).trans split
    | quotaExceeded | failed =>
      exact ((List.perm_append_singleton _ _).append_left _).trans split

/-- Only a write that lands leaves nothing in memory. -/
theorem idbEnqueueWithEviction_memory_iff (writes : Writes) (op : PendingOperation π)
    (store : List (PendingOperation π)) :
    (idbEnqueueWithEviction writes op store).memory = [] ↔ writes.Land := by
  obtain ⟨first, second⟩ := writes
  cases first <;> cases second <;> simp [idbEnqueueWithEviction, Writes.Land]

section
variable (now : Int) (handler : PendingOperation π → Bool)

theorem replayOps_perm (ops : List (PendingOperation π)) :
    ((replayOps now handler ops).handled ++ ((replayOps now handler ops).purged ++
      ((replayOps now handler ops).raised.toList ++ (replayOps now handler ops).rest))).Perm ops := by
  induction ops with
  | nil => exact List.Perm.refl _
  | cons op rest ih =>
    rw [replayOps]
    split
    · exact List.perm_middle.trans (ih.cons op)
    · split
      · exact ih.cons op
      · exact List.Perm.refl _

theorem replayOps_raised (ops : List (PendingOperation π)) :
    (replayOps now handler ops).raised =
      ops.find? fun op => !op.expired now && !handler op := by
  induction ops with
  | nil => rfl
  | cons op rest ih =>
    rw [replayOps]
    by_cases old : op.expired now = true
    · simp [old, ih]
    · by_cases good : handler op = true
      · simp [old, good, ih]
      · simp [old, good]

/-- A flush whose handler never raises passes everything that has not expired to it. -/
theorem replayOps_handled {ops : List (PendingOperation π)} (succeeds : ∀ op, handler op = true)
    {op : PendingOperation π} (mem : op ∈ ops) (young : op.expired now = false) :
    op ∈ (replayOps now handler ops).handled := by
  induction ops with
  | nil => cases mem
  | cons first rest ih =>
    rw [replayOps]
    obtain rfl | mem := List.mem_cons.mp mem
    · rw [if_neg (by simp [young]), if_pos (succeeds op)]
      exact List.mem_cons_self
    · split
      · exact ih mem
      · rw [if_pos (succeeds first)]
        exact List.mem_cons_of_mem _ (ih mem)

end

namespace Offline

/-- Every operation that was enqueued is waiting or has its fate, and only once. -/
structure Accounted (σ : Offline π) : Prop where
  available : ∃ store, σ.queue.store = some store
  accounts : (σ.gone.map Prod.fst ++ (ids σ.queue.getAll ++ ids σ.queue.memoryQueue)).Perm
    σ.enqueued
  distinct : σ.enqueued.Nodup

/-- An operation without a fate is still returned, and the next flush without a failure passes it to
the handler, unless it has expired. -/
def NothingLost (σ : Offline π) : Prop :=
  ∀ id ∈ σ.enqueued, id ∉ σ.gone.map Prod.fst → ∃ op ∈ σ.queue.getAll, op.id = id ∧
    ∀ now retryTime writes, op.expired now = false →
      (id, Fate.handled) ∈ (σ.flush now retryTime (fun _ => true) writes).gone

def start : Offline π := ⟨⟨some [], []⟩, [], []⟩

theorem start_accounted : (start : Offline π).Accounted :=
  ⟨⟨[], rfl⟩, List.Perm.refl _, List.nodup_nil⟩

variable {σ : Offline π}

theorem gone_putBack (σ : Offline π) (retryTime : Int) (writes : Writes)
    (raised : Option (PendingOperation π)) {entry : Nat × Fate} (mem : entry ∈ σ.gone) :
    entry ∈ (σ.putBack retryTime writes raised).gone := by
  cases raised with
  | none => exact mem
  | some op =>
    rw [putBack]
    split
    · split
      · exact mem
      · exact List.mem_append_left _ mem
    · exact List.mem_append_left _ mem

theorem mem_flush_handled {now retryTime : Int} {writes : Writes} {op : PendingOperation π}
    (mem : op ∈ σ.queue.getAll) (young : op.expired now = false) :
    (op.id, Fate.handled) ∈ (σ.flush now retryTime (fun _ => true) writes).gone := by
  apply gone_putBack
  apply List.mem_append_left
  apply List.mem_append_right
  exact List.mem_map.mpr
    ⟨op, replayOps_handled now (fun _ => true) (fun _ => rfl) mem young, rfl⟩

/-- What is in memory is lost. -/
theorem Accounted.nothingLost_iff (accounted : σ.Accounted) :
    σ.NothingLost ↔ σ.queue.memoryQueue = [] := by
  have distinct := accounted.accounts.nodup_iff.mpr accounted.distinct
  constructor
  · intro nothing
    cases hidden : σ.queue.memoryQueue with
    | nil => rfl
    | cons op rest =>
      rw [hidden, List.nodup_append, List.nodup_append] at distinct
      obtain ⟨-, ⟨-, -, apart⟩, alone⟩ := distinct
      have inMemory : op.id ∈ ids (op :: rest) := List.mem_cons_self
      have enqueued : op.id ∈ σ.enqueued := by
        apply accounted.accounts.mem_iff.mp
        rw [hidden]
        exact List.mem_append_right _ (List.mem_append_right _ inMemory)
      have waiting : op.id ∉ σ.gone.map Prod.fst := by
        intro gone
        exact alone _ gone _ (List.mem_append_right _ inMemory) rfl
      obtain ⟨other, returned, same, -⟩ := nothing op.id enqueued waiting
      exact absurd same (apart _ (List.mem_map_of_mem returned) _ inMemory)
  · intro empty id enqueued waiting
    have somewhere := accounted.accounts.mem_iff.mpr enqueued
    rw [empty, List.mem_append, List.mem_append] at somewhere
    obtain gone | returned | absurd := somewhere
    · exact absurd gone waiting
    · obtain ⟨op, mem, rfl⟩ := List.mem_map.mp returned
      exact ⟨op, mem, rfl, fun now retryTime writes young => mem_flush_handled mem young⟩
    · cases absurd

/-! ## One call -/

/-- The writes of the call end in the store. A flush writes only the operation that its handler
raised for, if that has a retry left. -/
def SoundCall (σ : Offline π) : OfflineCall π → Prop
  | .enqueue _ _ _ _ writes => writes.Land
  | .flush now _ handler writes =>
    ∀ op, σ.queue.getAll.find? (fun op => !op.expired now && !handler op) = some op →
      op.retries < maxRetries → writes.Land
  | .dequeue | .peek | .getAll | .size | .clear => True

/-- What a call does to the account and to what is in memory. -/
structure Keeps (σ σ' : Offline π) (sound : Prop) : Prop where
  accounted : σ'.Accounted
  memory : σ.queue.memoryQueue = [] → (σ'.queue.memoryQueue = [] ↔ sound)

theorem enqueue_keeps {σ' : Offline π} {id : Nat} {type : PendingOperationType} {payload : π}
    {now : Int} {writes : Writes} (accounted : σ.Accounted)
    (h : σ.enqueue id type payload now writes = some σ') : Keeps σ σ' writes.Land := by
  obtain ⟨store, available⟩ := accounted.available
  obtain ⟨fresh, h⟩ := Option.ite_none_left_eq_some.mp h
  rw [available] at h
  cases h
  have written := ids_perm (idbEnqueueWithEviction_perm writes ⟨id, type, payload, now, 0⟩ store)
  have accounts := accounted.accounts
  have all := OfflineQueue.getAll_of_available σ.queue available
  rw [all] at accounts
  refine ⟨⟨⟨_, rfl⟩, ?_, ?_⟩, ?_⟩
  · rw [List.perm_iff_count] at written accounts ⊢
    intro a
    have one := written a
    have two := accounts a
    simp only [OfflineQueue.getAll, Option.getD_some, ids_append, List.map_append, fated_ids,
      List.count_append] at one two ⊢
    simp only [ids, List.map_cons, List.count_cons, List.count_nil] at one two ⊢
    omega
  · rw [List.nodup_append]
    refine ⟨accounted.distinct, List.nodup_singleton id, ?_⟩
    intro a mem b single same
    rw [List.mem_singleton.mp single] at same
    exact fresh (same ▸ mem)
  · intro empty
    rw [← idbEnqueueWithEviction_memory_iff writes ⟨id, type, payload, now, 0⟩ store]
    simp [empty]

theorem dequeue_keeps (accounted : σ.Accounted) : Keeps σ σ.dequeue True := by
  obtain ⟨store, available⟩ := accounted.available
  have all := OfflineQueue.getAll_of_available σ.queue available
  have accounts := accounted.accounts
  have split : (ids (store.take 1) ++ ids store.tail).Perm (ids store) := by
    rw [← ids_append, ← List.drop_one, List.take_append_drop]
  rw [dequeue, available]
  refine ⟨⟨⟨_, rfl⟩, ?_, accounted.distinct⟩, fun empty => iff_of_true empty trivial⟩
  rw [all] at accounts
  rw [List.perm_iff_count] at accounts split ⊢
  intro a
  have one := split a
  have two := accounts a
  simp only [OfflineQueue.getAll, Option.getD_some, List.map_append, fated_ids,
    List.count_append] at one two ⊢
  omega

theorem clear_keeps (accounted : σ.Accounted) : Keeps σ σ.clear True := by
  obtain ⟨store, available⟩ := accounted.available
  have all := OfflineQueue.getAll_of_available σ.queue available
  have accounts := accounted.accounts
  rw [all] at accounts
  rw [clear, available]
  refine ⟨⟨⟨[], rfl⟩, ?_, accounted.distinct⟩, fun _ => iff_of_true rfl trivial⟩
  simpa [OfflineQueue.getAll, fated_ids, ids_append, ids] using accounts

theorem putBack_keeps {retryTime : Int} {writes : Writes} {raised : Option (PendingOperation π)}
    {store : List (PendingOperation π)} (available : σ.queue.store = some store)
    (accounts : (σ.gone.map Prod.fst ++ (ids raised.toList ++
      (ids store ++ ids σ.queue.memoryQueue))).Perm σ.enqueued)
    (distinct : σ.enqueued.Nodup) :
    Keeps σ (σ.putBack retryTime writes raised)
      (∀ op, raised = some op → op.retries < maxRetries → writes.Land) := by
  have all := OfflineQueue.getAll_of_available σ.queue available
  cases raised with
  | none =>
    refine ⟨⟨⟨store, available⟩, ?_, distinct⟩, fun empty => ?_⟩
    · rw [putBack, all]
      exact accounts
    · exact iff_of_true empty fun op absurd => by cases absurd
  | some op =>
    rw [putBack]
    split
    · rename_i left
      have written := ids_perm (idbEnqueueWithEviction_perm writes (retriedOp retryTime op) store)
      rw [available]
      refine ⟨⟨⟨_, rfl⟩, ?_, distinct⟩, fun empty => ?_⟩
      · rw [List.perm_iff_count] at written accounts ⊢
        intro a
        have one := written a
        have two := accounts a
        simp only [OfflineQueue.getAll, Option.getD_some, ids_append, List.map_append, fated_ids,
          List.count_append] at one two ⊢
        simp only [ids, retriedOp, Option.toList_some, List.map_cons, List.map_nil,
          List.count_cons, List.count_nil] at one two ⊢
        omega
      · simp only [empty, List.nil_append, idbEnqueueWithEviction_memory_iff]
        constructor
        · intro land _ _ _
          exact land
        · intro land
          exact land op rfl left
    · rename_i spent
      refine ⟨⟨⟨store, available⟩, ?_, distinct⟩, fun empty => iff_of_true empty ?_⟩
      · apply List.Perm.trans _ accounts
        rw [OfflineQueue.getAll, available, List.map_append, fated_ids, List.append_assoc]
        exact List.Perm.refl _
      · rintro other same left
        cases same
        exact absurd left spent

theorem flush_keeps {now retryTime : Int} {handler : PendingOperation π → Bool} {writes : Writes}
    (accounted : σ.Accounted) :
    Keeps σ (σ.flush now retryTime handler writes)
      (∀ op, σ.queue.getAll.find? (fun op => !op.expired now && !handler op) = some op →
        op.retries < maxRetries → writes.Land) := by
  obtain ⟨store, available⟩ := accounted.available
  have all := OfflineQueue.getAll_of_available σ.queue available
  have accounts := accounted.accounts
  have replayed := ids_perm (replayOps_perm now handler store)
  rw [all] at accounts ⊢
  have replayedAccounts : (((σ.gone ++ fated .handled (replayOps now handler store).handled) ++
      fated .purged (replayOps now handler store).purged).map Prod.fst ++
      (ids (replayOps now handler store).raised.toList ++
        (ids (replayOps now handler store).rest ++ ids σ.queue.memoryQueue))).Perm σ.enqueued := by
    rw [List.perm_iff_count] at accounts replayed ⊢
    intro a
    have one := replayed a
    have two := accounts a
    simp only [ids_append, List.map_append, fated_ids, List.count_append] at one two ⊢
    omega
  have kept := @putBack_keeps π ⟨⟨some (replayOps now handler store).rest, σ.queue.memoryQueue⟩,
    σ.enqueued, _⟩ retryTime writes _ _ rfl replayedAccounts accounted.distinct
  rw [flush, available, all, ← replayOps_raised]
  exact ⟨kept.accounted, kept.memory⟩

theorem step_keeps {σ' : Offline π} {call : OfflineCall π} (accounted : σ.Accounted)
    (h : σ.step call = some σ') : Keeps σ σ' (σ.SoundCall call) := by
  cases call with
  | enqueue id type payload now writes => exact enqueue_keeps accounted h
  | dequeue =>
    cases h
    exact dequeue_keeps accounted
  | clear =>
    cases h
    exact clear_keeps accounted
  | flush now retryTime handler writes =>
    cases h
    exact flush_keeps accounted
  | peek | getAll | size =>
    cases h
    exact ⟨accounted, fun empty => iff_of_true empty trivial⟩

/-- **No operation is lost** as long as no write ends in memory; one that does is lost at once. -/
theorem offline_queue_loses_nothing (run : Reaches step SoundCall start σ) :
    σ.NothingLost ∧ ∀ call σ', σ.step call = some σ' → (σ'.NothingLost ↔ σ.SoundCall call) := by
  have kept : σ.Accounted ∧ σ.queue.memoryQueue = [] := by
    apply run.invariant (P := fun σ => σ.Accounted ∧ σ.queue.memoryQueue = [])
    · rintro σ call σ' ⟨accounted, empty⟩ sound h
      have step := step_keeps accounted h
      exact ⟨step.accounted, (step.memory empty).mpr sound⟩
    · exact ⟨start_accounted, rfl⟩
  obtain ⟨accounted, empty⟩ := kept
  refine ⟨accounted.nothingLost_iff.mpr empty, fun call σ' h => ?_⟩
  have step := step_keeps accounted h
  rw [step.accounted.nothingLost_iff]
  exact step.memory empty

end Offline

end

def savedAt (id : Nat) (timestamp : Int) (retries : Nat) : PendingOperation Unit :=
  ⟨id, .saveDocument, (), timestamp, retries⟩

/-- A replay that fails: the operation is put back behind the other one. -/
theorem offline_queue_loses_nothing_retried : ∃ σ : Offline Unit,
    σ.NothingLost ∧ ids σ.queue.getAll = [2, 1] := by
  let landed : Writes := ⟨.stored, .stored⟩
  let one : Offline Unit := ⟨⟨some [savedAt 1 0 0], []⟩, [1], []⟩
  let two : Offline Unit := ⟨⟨some [savedAt 1 0 0, savedAt 2 5 0], []⟩, [1, 2], []⟩
  let back : Offline Unit := ⟨⟨some [savedAt 2 5 0, savedAt 1 20 1], []⟩, [1, 2], []⟩
  have first : Runs.Next Offline.step Offline.SoundCall Offline.start one :=
    ⟨.enqueue 1 .saveDocument () 0 landed, Or.inl rfl, rfl⟩
  have second : Runs.Next Offline.step Offline.SoundCall one two :=
    ⟨.enqueue 2 .saveDocument () 5 landed, Or.inl rfl, rfl⟩
  have third : Runs.Next Offline.step Offline.SoundCall two back :=
    ⟨.flush 10 20 (fun _ => false) landed, fun _ _ _ => Or.inl rfl, rfl⟩
  have run := ((Relation.ReflTransGen.single first).tail second).tail third
  exact ⟨back, (Offline.offline_queue_loses_nothing run).1, rfl⟩

/-- The write fails: the operation is in memory, where nobody looks for it. -/
theorem offline_operation_lost : ∃ σ : Offline Unit,
    Reaches Offline.step always Offline.start σ ∧ 1 ∈ σ.enqueued ∧ 1 ∉ σ.gone.map Prod.fst ∧
      σ.queue.getAll = [] ∧ ¬σ.NothingLost := by
  refine ⟨_, .single ⟨.enqueue 1 .saveDocument () 0 ⟨.failed, .stored⟩, trivial, rfl⟩, by decide,
    by decide, rfl, fun nothing => ?_⟩
  obtain ⟨op, absurd, -⟩ := nothing 1 (by decide) (by decide)
  cases absurd

end GigaPdf
