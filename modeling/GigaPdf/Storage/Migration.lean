import GigaPdf.Lib.Runs
import Mathlib.Algebra.GroupWithZero.Nat
import Mathlib.Data.List.Nodup

/-!
# Moving to another object store

`migrate_objects` copies the objects of one store to another in a pool of threads. Every call of a
store may raise, and objects may be deleted from the source meanwhile. A task of the pool has the
number of its entry in the listing.
-/

namespace GigaPdf.Migration

open Runs

/-- An object of a store. -/
structure Stored where
  data : List UInt8
  contentType : Option String
  metadata : List (String × String)
deriving DecidableEq

abbrev Bucket := String → Option Stored

structure StoredObject where
  key : String
  size : Nat
deriving DecidableEq

structure Config where
  listing : List StoredObject
  dryRun : Bool
  overwrite : Bool
  workers : Nat

/-- What `head_object` tells of an object. -/
abbrev Head := Option String × List (String × String)

def headObject (bucket : Bucket) (key : String) : Option Head :=
  (bucket key).map fun o => (o.contentType, o.metadata)

def setObject (bucket : Bucket) (key : String) (o : Option Stored) : Bucket := fun k =>
  if k = key then o else bucket k

/-- Where `_copy_one` has got to. -/
inductive Task
  | waiting
  | checked
  | fetched (data : List UInt8)
  | described (data : List UInt8) (head : Option Head)
  | copied (size : Nat)
  | skipped
  | failed
deriving DecidableEq

def Task.isActive : Task → Bool
  | .waiting | .checked | .fetched _ | .described _ _ => true
  | .copied _ | .skipped | .failed => false

/-- The next call of a task returns, or raises; a write may raise when it is done. -/
inductive Call
  | returns | raises | raisesLate
deriving DecidableEq

/-- The arguments that the destination is called with. -/
def putArguments (data : List UInt8) (head : Option Head) : Stored where
  data := data
  contentType := some (match (head.bind (·.1)).filter (· ≠ "") with
    | some contentType => contentType
    | none => "application/octet-stream")
  metadata := (head.map (·.2)).getD []

/-- One call of `_copy_one`, with what it leaves of the destination. -/
def copyOne (overwrite : Bool) (obj : StoredObject) (source dest : Bucket) :
    Task → Call → Option (Task × Bucket)
  | .waiting, .returns =>
    if !overwrite && (dest obj.key).any (·.data.length = obj.size) then some (.skipped, dest)
    else some (.checked, dest)
  | .checked, .returns =>
    match source obj.key with
    | none => some (.skipped, dest)
    | some o => some (.fetched o.data, dest)
  | .fetched data, .returns => some (.described data (headObject source obj.key), dest)
  | .described data head, .returns =>
    some (.copied data.length, setObject dest obj.key (some (putArguments data head)))
  | .described data head, .raisesLate =>
    some (.failed, setObject dest obj.key (some (putArguments data head)))
  | .waiting, .raises | .checked, .raises | .fetched _, .raises | .described _ _, .raises =>
    some (.failed, dest)
  | _, _ => none

/-- The stores, the tasks and the statistics. -/
structure State where
  source : Bucket
  dest : Bucket
  tasks : List Task
  /-- How many of the last tasks have not been waited for. -/
  futures : Nat
  scanned : Nat
  copied : Nat
  skipped : Nat
  bytesCopied : Nat
  errors : List String

def start (source dest : Bucket) : State := ⟨source, dest, [], 0, 0, 0, 0, 0, []⟩

inductive Event
  | scan
  | drain
  | call (i : Nat) (c : Call)
  | delete (key : String)

/-- The statistics of `handle`. -/
def State.count (m : State) (key : String) : Task → State
  | .copied size => { m with copied := m.copied + 1, bytesCopied := m.bytesCopied + size }
  | .skipped => { m with skipped := m.skipped + 1 }
  | .failed => { m with errors := m.errors ++ [key] }
  | _ => m

/-- The main thread goes on with the listing. -/
def hasRoom (c : Config) (m : State) : Prop := m.futures = 0 ∨ m.futures < c.workers * 4

instance (c : Config) (m : State) : Decidable (hasRoom c m) := inferInstanceAs (Decidable (_ ∨ _))

def step (c : Config) (m : State) : Event → Option State
  | .scan =>
    if m.scanned < c.listing.length then
      if c.dryRun then some { m with scanned := m.scanned + 1 }
      else if hasRoom c m then
        some { m with
          scanned := m.scanned + 1
          tasks := m.tasks ++ [.waiting]
          futures := m.futures + 1 }
      else none
    else none
  | .drain =>
    if ¬hasRoom c m ∧ ∀ t ∈ m.tasks.drop (m.tasks.length - m.futures), t.isActive = false then
      some { m with futures := 0 }
    else none
  | .call i call =>
    match c.listing[i]?, m.tasks[i]? with
    | some obj, some t =>
      (copyOne c.overwrite obj m.source m.dest t call).map fun (t', dest) =>
        { m with tasks := m.tasks.set i t', dest := dest }.count obj.key t'
    | _, _ => none
  | .delete key => some { m with source := setObject m.source key none }

/-! ## One task -/

section
variable (source₀ dest₀ : Bucket)

/-- An object is told of as it was, unless it is gone. -/
def Tells (source : Bucket) (key : String) (o : Stored) (head : Option Head) : Prop :=
  head = some (o.contentType, o.metadata) ∨ head = none ∧ source key = none

/-- The destination holds the copy of what the source held. -/
def HoldsCopy (source dest : Bucket) (key : String) (o : Stored) : Prop :=
  ∃ head, Tells source key o head ∧ dest key = some (putArguments o.data head)

/-- What a task knows, and what it has left of its object. -/
def Fits (overwrite : Bool) (source dest : Bucket) (obj : StoredObject) : Task → Prop
  | .waiting | .checked => dest obj.key = dest₀ obj.key
  | .fetched data => dest obj.key = dest₀ obj.key ∧ ∃ o, source₀ obj.key = some o ∧ o.data = data
  | .described data head => dest obj.key = dest₀ obj.key ∧
    ∃ o, source₀ obj.key = some o ∧ o.data = data ∧ Tells source obj.key o head
  | .copied size => ∃ o, source₀ obj.key = some o ∧ o.data.length = size ∧
    HoldsCopy source dest obj.key o
  | .skipped => dest obj.key = dest₀ obj.key ∧ (source obj.key = none ∨
    overwrite = false ∧ ∃ o, dest₀ obj.key = some o ∧ o.data.length = obj.size)
  | .failed => dest obj.key = dest₀ obj.key ∨
    ∃ o, source₀ obj.key = some o ∧ HoldsCopy source dest obj.key o

variable {source₀ dest₀} {overwrite : Bool} {source dest : Bucket} {obj : StoredObject}

/-- What a call can make of a task and the destination. -/
inductive CopyStep (overwrite : Bool) (obj : StoredObject) (source dest : Bucket) :
    Task → Task → Bucket → Prop
  | present {o : Stored} : overwrite = false → dest obj.key = some o → o.data.length = obj.size →
    CopyStep overwrite obj source dest .waiting .skipped dest
  | absent : (overwrite = false → ∀ o, dest obj.key = some o → o.data.length ≠ obj.size) →
    CopyStep overwrite obj source dest .waiting .checked dest
  | gone : source obj.key = none → CopyStep overwrite obj source dest .checked .skipped dest
  | fetch {o : Stored} : source obj.key = some o →
    CopyStep overwrite obj source dest .checked (.fetched o.data) dest
  | describe (data : List UInt8) : CopyStep overwrite obj source dest (.fetched data)
    (.described data (headObject source obj.key)) dest
  | put (data : List UInt8) (head : Option Head) {t' : Task} :
    t' = .copied data.length ∨ t' = .failed → CopyStep overwrite obj source dest
      (.described data head) t' (setObject dest obj.key (some (putArguments data head)))
  | raise {t : Task} : t.isActive = true → CopyStep overwrite obj source dest t .failed dest

theorem copyStep_of_copyOne {t t' : Task} {call : Call} {dest' : Bucket}
    (next : copyOne overwrite obj source dest t call = some (t', dest')) :
    CopyStep overwrite obj source dest t t' dest' := by
  rw [copyOne.eq_def] at next
  split at next
  · split at next
    · rename_i found
      cases next
      rw [Bool.and_eq_true, Bool.not_eq_true', Option.any_eq_true] at found
      obtain ⟨kept, o, there, size⟩ := found
      exact .present kept there (by simpa using size)
    · rename_i other
      cases next
      refine .absent fun kept o there size => other ?_
      rw [kept, there]
      simp [size]
  · split at next
    · cases next
      exact .gone ‹_›
    · cases next
      exact .fetch ‹_›
  · cases next
    exact .describe _
  · cases next
    exact .put _ _ (.inl rfl)
  · cases next
    exact .put _ _ (.inr rfl)
  · cases next
    exact .raise rfl
  · cases next
    exact .raise rfl
  · cases next
    exact .raise rfl
  · cases next
    exact .raise rfl
  · cases next

/-- Nothing is written but the object of the task. -/
theorem CopyStep.frame {t t' : Task} {dest' : Bucket}
    (h : CopyStep overwrite obj source dest t t' dest') {key : String} (other : key ≠ obj.key) :
    dest' key = dest key := by
  cases h with
  | put => exact if_neg other
  | present | absent | gone | fetch | describe | raise => rfl

theorem CopyStep.isActive {t t' : Task} {dest' : Bucket}
    (h : CopyStep overwrite obj source dest t t' dest') : t.isActive = true := by
  cases h with
  | raise active => exact active
  | present | absent | gone | fetch | describe | put => rfl

/-- A task in progress has written nothing. -/
theorem dest_of_isActive {t : Task} (fits : Fits source₀ dest₀ overwrite source dest obj t)
    (active : t.isActive = true) : dest obj.key = dest₀ obj.key := by
  cases t with
  | waiting | checked => exact fits
  | fetched | described => exact fits.1
  | copied | skipped | failed => cases active

theorem CopyStep.fits {t t' : Task} {dest' : Bucket}
    (h : CopyStep overwrite obj source dest t t' dest')
    (undisturbed : source obj.key = source₀ obj.key ∨ source obj.key = none)
    (fits : Fits source₀ dest₀ overwrite source dest obj t) :
    Fits source₀ dest₀ overwrite source dest' obj t' := by
  have before := dest_of_isActive fits h.isActive
  cases h with
  | present kept there size => exact ⟨before, .inr ⟨kept, _, before ▸ there, size⟩⟩
  | absent => exact before
  | gone none => exact ⟨before, .inl none⟩
  | fetch there =>
    refine ⟨before, _, ?_, rfl⟩
    obtain same | gone := undisturbed
    · rw [← same, there]
    · rw [gone] at there
      cases there
  | describe data =>
    obtain ⟨-, o, there, rfl⟩ := fits
    refine ⟨before, o, there, rfl, ?_⟩
    obtain same | gone := undisturbed
    · exact .inl (by rw [headObject, same, there]; rfl)
    · exact .inr ⟨by rw [headObject, gone]; rfl, gone⟩
  | put data head outcome =>
    obtain ⟨-, o, there, rfl, tells⟩ := fits
    have holds : HoldsCopy source (setObject dest obj.key (some (putArguments o.data head)))
        obj.key o := ⟨head, tells, if_pos rfl⟩
    obtain rfl | rfl := outcome
    · exact ⟨o, there, rfl, holds⟩
    · exact .inr ⟨o, there, holds⟩
  | raise => exact .inl before

/-- What is told of an object stays true when others are written, or objects deleted. -/
theorem Fits.later {t : Task} (fits : Fits source₀ dest₀ overwrite source dest obj t)
    {source' dest' : Bucket} (less : source obj.key = none → source' obj.key = none)
    (same : dest' obj.key = dest obj.key) : Fits source₀ dest₀ overwrite source' dest' obj t := by
  have tells : ∀ {o head}, Tells source obj.key o head → Tells source' obj.key o head :=
    fun h => h.imp_right (And.imp_right less)
  have holds : ∀ {o}, HoldsCopy source dest obj.key o → HoldsCopy source' dest' obj.key o := by
    rintro o ⟨head, told, there⟩
    exact ⟨head, tells told, same.trans there⟩
  cases t with
  | waiting | checked => exact same.trans fits
  | fetched => exact ⟨same.trans fits.1, fits.2⟩
  | described =>
    obtain ⟨before, o, there, data, told⟩ := fits
    exact ⟨same.trans before, o, there, data, tells told⟩
  | copied =>
    obtain ⟨o, there, size, copy⟩ := fits
    exact ⟨o, there, size, holds copy⟩
  | skipped => exact ⟨same.trans fits.1, fits.2.imp_left less⟩
  | failed =>
    obtain before | ⟨o, there, copy⟩ := fits
    · exact .inl (same.trans before)
    · exact .inr ⟨o, there, holds copy⟩

end

/-! ## The pool -/

def Task.isCopied : Task → Bool
  | .copied _ => true
  | _ => false

def Task.size : Task → Nat
  | .copied size => size
  | _ => 0

/-- The sum of a weight after one item is replaced. -/
theorem sum_map_set {α : Type} (weight : α → Nat) {l : List α} {i : Nat} {a b : α}
    (here : l[i]? = some a) :
    ((l.set i b).map weight).sum + weight a = (l.map weight).sum + weight b := by
  induction l generalizing i with
  | nil => cases here
  | cons x l ih =>
    cases i with
    | zero =>
      cases here
      simp only [List.set_cons_zero, List.map_cons, List.sum_cons]
      omega
    | succ i =>
      have rest := ih here
      simp only [List.set_cons_succ, List.map_cons, List.sum_cons]
      omega

def weigh (p : Task → Bool) (t : Task) : Nat := if p t then 1 else 0

/-- The statistics are those of the tasks. -/
structure Counted (c : Config) (m : State) : Prop where
  copied : m.copied = (m.tasks.map (weigh Task.isCopied)).sum
  skipped : m.skipped = (m.tasks.map (weigh (· = .skipped))).sum
  bytesCopied : m.bytesCopied = (m.tasks.map Task.size).sum
  errors : m.errors.length = (m.tasks.map (weigh (· = .failed))).sum
  named : ∀ (i : Nat) (obj : StoredObject), c.listing[i]? = some obj →
    m.tasks[i]? = some .failed → obj.key ∈ m.errors

/-- The main thread has waited for the tasks before the outstanding ones, which are not many. -/
structure Pooled (c : Config) (m : State) : Prop where
  futures : m.futures ≤ m.tasks.length
  finished : ∀ t ∈ m.tasks.take (m.tasks.length - m.futures), t.isActive = false
  bound : m.futures ≤ max 1 (c.workers * 4)

structure Copying (c : Config) (source₀ dest₀ : Bucket) (m : State) : Prop where
  scanned : m.scanned ≤ c.listing.length
  tasks : m.tasks.length = if c.dryRun then 0 else m.scanned
  source : ∀ k, m.source k = source₀ k ∨ m.source k = none
  fits : ∀ (i : Nat) (obj : StoredObject) (t : Task), c.listing[i]? = some obj →
    m.tasks[i]? = some t → Fits source₀ dest₀ c.overwrite m.source m.dest obj t
  others : ∀ k, (∀ obj ∈ c.listing.take m.tasks.length, obj.key ≠ k) → m.dest k = dest₀ k
  counted : Counted c m
  pooled : Pooled c m

variable {c : Config} {source₀ dest₀ : Bucket}

theorem copying_start (c : Config) (source dest : Bucket) :
    Copying c source dest (start source dest) where
  scanned := Nat.zero_le _
  tasks := by simp [start]
  source _ := .inl rfl
  fits := by simp [start]
  others _ _ := rfl
  counted := ⟨rfl, rfl, rfl, rfl, by simp [start]⟩
  pooled := ⟨Nat.le_refl _, by simp [start], Nat.zero_le _⟩

theorem key_ne_of_ne {listing : List StoredObject}
    (distinct : (listing.map StoredObject.key).Nodup) {i j : Nat} {obj other : StoredObject}
    (entry : listing[i]? = some obj) (entry' : listing[j]? = some other) (apart : j ≠ i) :
    other.key ≠ obj.key := by
  obtain ⟨hi, rfl⟩ := List.getElem?_eq_some_iff.mp entry
  intro same
  have keys : (listing.map StoredObject.key)[j]? = (listing.map StoredObject.key)[i]? := by
    rw [List.getElem?_map, List.getElem?_map, entry', entry, Option.map_some, Option.map_some, same]
  exact apart ((List.getElem?_inj (by rwa [List.length_map]) distinct).mp keys.symm).symm

/-- The keys of the entries before one are others. -/
theorem key_ne_of_mem_take {listing : List StoredObject}
    (distinct : (listing.map StoredObject.key).Nodup) {n : Nat} {obj other : StoredObject}
    (entry : listing[n]? = some obj) (mem : other ∈ listing.take n) : other.key ≠ obj.key := by
  obtain ⟨j, before, rfl⟩ := List.mem_take_iff_getElem.mp mem
  exact key_ne_of_ne distinct entry (List.getElem?_eq_getElem _) (by omega)

/-- What the main thread does with an entry of the listing. -/
def State.submit (m : State) : State :=
  { m with
    scanned := m.scanned + 1
    tasks := m.tasks ++ [.waiting]
    futures := m.futures + 1 }

theorem counted_submit {m : State} (h : Counted c m) : Counted c m.submit where
  copied := by simpa [State.submit, weigh, Task.isCopied] using h.copied
  skipped := by simpa [State.submit, weigh] using h.skipped
  bytesCopied := by simpa [State.submit, Task.size] using h.bytesCopied
  errors := by simpa [State.submit, weigh] using h.errors
  named := by
    intro i obj entry here
    rw [State.submit, List.getElem?_append] at here
    split at here
    · exact h.named i obj entry here
    · rw [List.getElem?_singleton] at here
      cases (Option.ite_none_right_eq_some.mp here).2

theorem pooled_submit {m : State} (h : Pooled c m) (room : hasRoom c m) : Pooled c m.submit where
  futures := by
    rw [State.submit, List.length_append]
    exact Nat.succ_le_succ h.futures
  finished := by
    rw [State.submit, List.length_append, List.length_singleton, Nat.add_sub_add_right,
      List.take_append_of_le_length (Nat.sub_le _ _)]
    exact h.finished
  bound := by
    change m.futures + 1 ≤ _
    rw [hasRoom] at room
    omega

/-- A new task knows nothing, and its object is as it was. -/
theorem copying_scan {m t : State} (distinct : (c.listing.map StoredObject.key).Nodup)
    (h : Copying c source₀ dest₀ m) (next : step c m .scan = some t) :
    Copying c source₀ dest₀ t := by
  obtain ⟨more, next⟩ := Option.ite_none_right_eq_some.mp next
  have length := h.tasks
  split at next
  · rename_i dry
    cases next
    rw [if_pos dry] at length
    refine ⟨more, by rw [if_pos dry]; exact length, h.source, h.fits, h.others, ?_, ?_⟩
    · exact ⟨h.counted.copied, h.counted.skipped, h.counted.bytesCopied, h.counted.errors,
        h.counted.named⟩
    · exact ⟨h.pooled.futures, h.pooled.finished, h.pooled.bound⟩
  · rename_i dry
    obtain ⟨room, given⟩ := Option.ite_none_right_eq_some.mp next
    cases given
    rw [if_neg dry] at length
    refine ⟨more, ?_, h.source, ?_, ?_, ?_, ?_⟩
    · rw [if_neg dry, List.length_append, length]
      rfl
    · intro i obj task entry here
      rw [List.getElem?_append] at here
      split at here
      · exact h.fits i obj task entry here
      · rw [List.getElem?_singleton] at here
        obtain ⟨last, new⟩ := Option.ite_none_right_eq_some.mp here
        cases new
        apply h.others
        intro other mem
        have index : i = m.tasks.length := by omega
        exact key_ne_of_mem_take distinct (index ▸ entry) mem
    · intro k outside
      apply h.others
      intro obj mem
      apply outside
      rw [List.length_append]
      exact List.take_subset_take_left _ (Nat.le_add_right _ _) mem
    · exact counted_submit h.counted
    · exact pooled_submit h.pooled room

@[simp]
theorem count_tasks (m : State) (key : String) (t : Task) : (m.count key t).tasks = m.tasks := by
  cases t <;> rfl

@[simp]
theorem count_dest (m : State) (key : String) (t : Task) : (m.count key t).dest = m.dest := by
  cases t <;> rfl

@[simp]
theorem count_source (m : State) (key : String) (t : Task) : (m.count key t).source = m.source := by
  cases t <;> rfl

@[simp]
theorem count_scanned (m : State) (key : String) (t : Task) :
    (m.count key t).scanned = m.scanned := by
  cases t <;> rfl

@[simp]
theorem count_futures (m : State) (key : String) (t : Task) :
    (m.count key t).futures = m.futures := by
  cases t <;> rfl

theorem count_copied (m : State) (key : String) (t : Task) :
    (m.count key t).copied = m.copied + weigh Task.isCopied t := by
  cases t <;> rfl

theorem count_skipped (m : State) (key : String) (t : Task) :
    (m.count key t).skipped = m.skipped + weigh (· = .skipped) t := by
  cases t <;> rfl

theorem count_bytesCopied (m : State) (key : String) (t : Task) :
    (m.count key t).bytesCopied = m.bytesCopied + t.size := by
  cases t <;> rfl

theorem count_errors (m : State) (key : String) (t : Task) :
    (m.count key t).errors = if t = .failed then m.errors ++ [key] else m.errors := by
  cases t <;> rfl

/-- A task in progress has not been counted. -/
theorem weigh_of_isActive {t : Task} (active : t.isActive = true) :
    weigh Task.isCopied t = 0 ∧ weigh (· = .skipped) t = 0 ∧ t.size = 0 ∧
      weigh (· = .failed) t = 0 := by
  cases t with
  | waiting | checked | fetched | described => exact ⟨rfl, rfl, rfl, rfl⟩
  | copied | skipped | failed => cases active

theorem counted_call {m : State} (h : Counted c m) {i : Nat} {obj : StoredObject}
    (entry : c.listing[i]? = some obj) {t t' : Task} (here : m.tasks[i]? = some t)
    (active : t.isActive = true) (dest : Bucket) :
    Counted c ({ m with tasks := m.tasks.set i t', dest := dest }.count obj.key t') := by
  obtain ⟨notCopied, notSkipped, noSize, notFailed⟩ := weigh_of_isActive active
  have copied := sum_map_set (weigh Task.isCopied) (b := t') here
  have skipped := sum_map_set (weigh (· = .skipped)) (b := t') here
  have size := sum_map_set Task.size (b := t') here
  have failed := sum_map_set (weigh (· = .failed)) (b := t') here
  refine ⟨?_, ?_, ?_, ?_, ?_⟩
  · rw [count_copied, count_tasks]
    dsimp only
    rw [h.copied]
    omega
  · rw [count_skipped, count_tasks]
    dsimp only
    rw [h.skipped]
    omega
  · rw [count_bytesCopied, count_tasks]
    dsimp only
    rw [h.bytesCopied]
    omega
  · rw [count_errors, count_tasks]
    dsimp only
    have before := h.errors
    have new : weigh (· = .failed) t' = if t' = .failed then 1 else 0 := by simp [weigh]
    split
    · rename_i yes
      rw [if_pos yes] at new
      rw [List.length_append, List.length_singleton]
      omega
    · rename_i no
      rw [if_neg no] at new
      omega
  · intro j other entry' failed'
    rw [count_tasks] at failed'
    rw [count_errors]
    rw [List.getElem?_set] at failed'
    split at failed'
    · rename_i same
      subst same
      obtain rfl := Option.some.inj (entry.symm.trans entry')
      rw [if_pos (List.getElem?_eq_some_iff.mp here).1] at failed'
      rw [if_pos (Option.some.inj failed')]
      exact List.mem_append_right _ (List.mem_singleton_self _)
    · have mem := h.named j other entry' failed'
      split
      · exact List.mem_append_left _ mem
      · exact mem

theorem copying_call {m t : State} (distinct : (c.listing.map StoredObject.key).Nodup)
    (h : Copying c source₀ dest₀ m) {i : Nat} {call : Call}
    (next : step c m (.call i call) = some t) : Copying c source₀ dest₀ t := by
  rw [step] at next
  split at next
  · rename_i obj task entry here
    obtain ⟨⟨task', dest'⟩, made, given⟩ := Option.map_eq_some_iff.mp next
    cases given
    have copies := copyStep_of_copyOne made
    have bound : i < m.tasks.length := (List.getElem?_eq_some_iff.mp here).1
    refine ⟨by simpa using h.scanned, by simpa using h.tasks, by simpa using h.source, ?_, ?_,
      counted_call h.counted entry here copies.isActive dest', ?_⟩
    · intro j other task'' entry' here'
      rw [count_source, count_dest]
      rw [count_tasks, List.getElem?_set] at here'
      split at here'
      · rename_i same
        subst same
        obtain rfl := Option.some.inj (entry.symm.trans entry')
        obtain rfl : task' = task'' := by simpa [bound] using here'
        exact copies.fits (h.source _) (h.fits i obj task entry here)
      · rename_i apart
        exact (h.fits j other task'' entry' here').later id
          (copies.frame (key_ne_of_ne distinct entry entry' (Ne.symm apart)))
    · intro k outside
      rw [count_dest]
      rw [count_tasks, List.length_set] at outside
      refine (copies.frame fun same => ?_).trans (h.others k outside)
      exact outside obj (List.mem_of_getElem? ((List.getElem?_take_of_lt bound).trans entry))
        same.symm
    · -- The main thread has not waited for a task in progress.
      have late : m.tasks.length - m.futures ≤ i := by
        by_contra early
        have waited := h.pooled.finished task
          (List.mem_of_getElem? ((List.getElem?_take_of_lt (Nat.lt_of_not_le early)).trans here))
        rw [copies.isActive] at waited
        cases waited
      refine ⟨?_, ?_, by simpa using h.pooled.bound⟩
      · simpa using h.pooled.futures
      · rw [count_tasks, count_futures, List.length_set, List.take_set_of_le late]
        exact h.pooled.finished
  · cases next

theorem copying_step {m t : State} {e : Event} (distinct : (c.listing.map StoredObject.key).Nodup)
    (h : Copying c source₀ dest₀ m) (next : step c m e = some t) : Copying c source₀ dest₀ t := by
  cases e with
  | scan => exact copying_scan distinct h next
  | drain =>
    obtain ⟨⟨-, finished⟩, given⟩ := Option.ite_none_right_eq_some.mp next
    cases given
    refine ⟨h.scanned, h.tasks, h.source, h.fits, h.others, ?_, Nat.zero_le _, ?_, Nat.zero_le _⟩
    · exact ⟨h.counted.copied, h.counted.skipped, h.counted.bytesCopied, h.counted.errors,
        h.counted.named⟩
    · intro t mem
      rw [Nat.sub_zero, List.take_length,
        ← List.take_append_drop (m.tasks.length - m.futures) m.tasks, List.mem_append] at mem
      exact mem.elim (h.pooled.finished t) (finished t)
  | call i call => exact copying_call distinct h next
  | delete key =>
    cases next
    refine ⟨h.scanned, h.tasks, ?_, ?_, h.others, ?_, ?_⟩
    · intro k
      by_cases here : k = key
      · exact .inr (if_pos here)
      · exact (h.source k).imp (if_neg here).trans (if_neg here).trans
    · intro i obj t entry task
      refine (h.fits i obj t entry task).later (fun none => ?_) rfl
      by_cases here : obj.key = key
      · exact if_pos here
      · exact (if_neg here).trans none
    · exact ⟨h.counted.copied, h.counted.skipped, h.counted.bytesCopied, h.counted.errors,
        h.counted.named⟩
    · exact ⟨h.pooled.futures, h.pooled.finished, h.pooled.bound⟩

theorem copying_of_run (distinct : (c.listing.map StoredObject.key).Nodup) {m : State}
    (run : Reaches (step c) always (start source₀ dest₀) m) : Copying c source₀ dest₀ m :=
  run.invariant (P := Copying c source₀ dest₀) (fun _ _ _ h _ next => copying_step distinct h next)
    (copying_start c source₀ dest₀)

/-- **Memory stays bounded**: however the threads take turns, the tasks in progress, and with them
the objects in memory, are no more than four for each worker. -/
theorem active_le (distinct : (c.listing.map StoredObject.key).Nodup) {m : State}
    (run : Reaches (step c) always (start source₀ dest₀) m) :
    m.tasks.countP Task.isActive ≤ max 1 (c.workers * 4) := by
  have pooled := (copying_of_run distinct run).pooled
  have early : (m.tasks.take (m.tasks.length - m.futures)).countP Task.isActive = 0 :=
    List.countP_eq_zero.mpr fun t mem => by simp [pooled.finished t mem]
  have late : (m.tasks.drop (m.tasks.length - m.futures)).countP Task.isActive ≤ m.futures := by
    have length := List.countP_le_length (p := Task.isActive)
      (l := m.tasks.drop (m.tasks.length - m.futures))
    rw [List.length_drop] at length
    have futures := pooled.futures
    omega
  rw [← List.take_append_drop (m.tasks.length - m.futures) m.tasks, List.countP_append, early,
    Nat.zero_add]
  exact Nat.le_trans late pooled.bound

/-- One worker with four objects in hand. -/
theorem active_le_four :
    let c : Config := ⟨[⟨"a", 1⟩, ⟨"b", 1⟩, ⟨"c", 1⟩, ⟨"d", 1⟩, ⟨"e", 1⟩], false, false, 1⟩
    ∃ m : State, m.tasks.countP Task.isActive = 4 ∧
      m.tasks.countP Task.isActive ≤ max 1 (c.workers * 4) := by
  intro c
  obtain ⟨m, run, four⟩ := exists_reaches_of_runAll (step c) always
    (start (fun _ => some ⟨[1], none, []⟩) fun _ => none)
    [.scan, .scan, .call 0 .returns, .call 0 .returns, .scan, .scan]
    (fun m => m.tasks.countP Task.isActive = 4) (by decide +kernel)
  exact ⟨m, four, active_le (by decide) run⟩

/-! ## What a migration leaves -/

/-- The listing is read, and every task is over. -/
structure Complete (c : Config) (m : State) : Prop where
  scanned : m.scanned = c.listing.length
  finished : ∀ t ∈ m.tasks, t.isActive = false

/-- A task that is over has been counted once. -/
theorem length_eq_counts {tasks : List Task} (finished : ∀ t ∈ tasks, t.isActive = false) :
    tasks.length = (tasks.map (weigh Task.isCopied)).sum + (tasks.map (weigh (· = .skipped))).sum +
      (tasks.map (weigh (· = .failed))).sum := by
  induction tasks with
  | nil => rfl
  | cons t tasks ih =>
    obtain ⟨ended, rest⟩ := List.forall_mem_cons.mp finished
    have one : weigh Task.isCopied t + weigh (· = .skipped) t + weigh (· = .failed) t = 1 := by
      cases t with
      | waiting | checked | fetched | described => cases ended
      | copied | skipped | failed => rfl
    have before := ih rest
    simp only [List.length_cons, List.map_cons, List.sum_cons]
    omega

/-- What becomes of an entry. -/
theorem outcomes (distinct : (c.listing.map StoredObject.key).Nodup) (real : c.dryRun = false)
    {m : State} (run : Reaches (step c) always (start source₀ dest₀) m) (complete : Complete c m) :
    ∀ obj ∈ c.listing, obj.key ∈ m.errors ∨
      (∃ o, source₀ obj.key = some o ∧ HoldsCopy m.source m.dest obj.key o) ∨
      m.dest obj.key = dest₀ obj.key ∧ (m.source obj.key = none ∨
        c.overwrite = false ∧ ∃ o, dest₀ obj.key = some o ∧ o.data.length = obj.size) := by
  have h := copying_of_run distinct run
  have length : m.tasks.length = c.listing.length := by
    rw [h.tasks, real, ← complete.scanned]
    rfl
  intro obj mem
  obtain ⟨i, entry⟩ := List.mem_iff_getElem?.mp mem
  have bound : i < m.tasks.length := by
    rw [length]
    exact (List.getElem?_eq_some_iff.mp entry).1
  have here : m.tasks[i]? = some m.tasks[i] := List.getElem?_eq_getElem bound
  have fits := h.fits i obj m.tasks[i] entry here
  have ended := complete.finished m.tasks[i] (List.getElem_mem bound)
  cases task : m.tasks[i] with
  | waiting | checked | fetched | described =>
    rw [task] at ended
    cases ended
  | copied size =>
    rw [task] at fits
    obtain ⟨o, there, -, copy⟩ := fits
    exact .inr (.inl ⟨o, there, copy⟩)
  | skipped =>
    rw [task] at fits
    exact .inr (.inr fits)
  | failed => exact .inl (h.counted.named i obj entry (task ▸ here))

/-- What is in the destination already is left alone. -/
structure Untouched (c : Config) (dest₀ : Bucket) (m : State) : Prop where
  dest : m.dest = dest₀
  idle : ∀ t ∈ m.tasks, t = .waiting ∨ t = .skipped ∨ t = .failed
  copied : m.copied = 0
  bytesCopied : m.bytesCopied = 0

theorem untouched_step (kept : c.overwrite = false) (present : ∀ obj ∈ c.listing,
    ∃ o, dest₀ obj.key = some o ∧ o.data.length = obj.size) {m t : State} {e : Event}
    (h : Untouched c dest₀ m) (next : step c m e = some t) : Untouched c dest₀ t := by
  cases e with
  | scan =>
    obtain ⟨-, next⟩ := Option.ite_none_right_eq_some.mp next
    split at next
    · cases next
      exact ⟨h.dest, h.idle, h.copied, h.bytesCopied⟩
    · cases (Option.ite_none_right_eq_some.mp next).2
      refine ⟨h.dest, fun t mem => ?_, h.copied, h.bytesCopied⟩
      obtain old | new := List.mem_append.mp mem
      · exact h.idle t old
      · exact .inl (List.mem_singleton.mp new)
  | drain =>
    cases (Option.ite_none_right_eq_some.mp next).2
    exact ⟨h.dest, h.idle, h.copied, h.bytesCopied⟩
  | call i call =>
    rw [step] at next
    split at next
    · rename_i obj task entry here
      obtain ⟨⟨task', dest'⟩, made, given⟩ := Option.map_eq_some_iff.mp next
      cases given
      have copies := copyStep_of_copyOne made
      obtain rfl : task = .waiting := by
        obtain waiting | rfl | rfl := h.idle task (List.mem_of_getElem? here)
        · exact waiting
        · cases copies.isActive
        · cases copies.isActive
      have outcome : dest' = m.dest ∧ (task' = .skipped ∨ task' = .failed) := by
        cases copies with
        | present => exact ⟨rfl, .inl rfl⟩
        | absent missing =>
          obtain ⟨o, there, size⟩ := present obj (List.mem_of_getElem? entry)
          exact absurd size (missing kept o (by rw [h.dest, there]))
        | raise => exact ⟨rfl, .inr rfl⟩
      obtain ⟨rfl, ended⟩ := outcome
      refine ⟨by rw [count_dest]; exact h.dest, ?_, ?_, ?_⟩
      · intro t mem
        rw [count_tasks] at mem
        obtain old | rfl := List.mem_or_eq_of_mem_set mem
        · exact h.idle t old
        · exact .inr ended
      · rw [count_copied]
        obtain rfl | rfl := ended <;> exact h.copied
      · rw [count_bytesCopied]
        obtain rfl | rfl := ended <;> exact h.bytesCopied
    · cases next
  | delete key =>
    cases next
    exact ⟨h.dest, h.idle, h.copied, h.bytesCopied⟩

/-- **A migration can be run again**: after one that has reported nothing, while the source stayed
as it was, another one copies nothing and leaves the destination as it is. -/
theorem migrate_again (distinct : (c.listing.map StoredObject.key).Nodup)
    (real : c.dryRun = false) (kept : c.overwrite = false)
    (sizes : ∀ obj ∈ c.listing, ∃ o, source₀ obj.key = some o ∧ o.data.length = obj.size)
    {m m' : State} (first : Reaches (step c) always (start source₀ dest₀) m)
    (complete : Complete c m) (clean : m.errors = []) (undisturbed : m.source = source₀)
    (again : Reaches (step c) always (start m.source m.dest) m') :
    m'.dest = m.dest ∧ m'.copied = 0 ∧ m'.bytesCopied = 0 := by
  have present : ∀ obj ∈ c.listing, ∃ o, m.dest obj.key = some o ∧ o.data.length = obj.size := by
    intro obj mem
    obtain ⟨o, there, size⟩ := sizes obj mem
    obtain reported | ⟨o', there', head, -, copy⟩ | ⟨same, gone | ⟨-, o', old, size'⟩⟩ :=
      outcomes distinct real first complete obj mem
    · rw [clean] at reported
      cases reported
    · rw [there, Option.some.injEq] at there'
      exact ⟨_, copy, there' ▸ size⟩
    · rw [undisturbed, there] at gone
      cases gone
    · exact ⟨o', same.trans old, size'⟩
  have untouched := again.invariant (P := Untouched c m.dest)
    (fun _ _ _ h _ next => untouched_step kept present h next)
    ⟨rfl, by simp [start], rfl, rfl⟩
  exact ⟨untouched.dest, untouched.copied, untouched.bytesCopied⟩

/-- Three objects, of which the destination has one and the source loses one. -/
def sampleConfig : Config := ⟨[⟨"a", 1⟩, ⟨"b", 2⟩, ⟨"c", 1⟩], false, false, 8⟩

def sampleSource : Bucket := fun k =>
  if k = "a" then some ⟨[1], some "text/plain", []⟩
  else if k = "b" then some ⟨[2, 3], none, [("v", "1")]⟩
  else if k = "c" then some ⟨[4], none, []⟩
  else none

def sampleDest : Bucket := fun k => if k = "b" then some ⟨[7, 7], none, []⟩ else none

theorem migrate_again_one :
    let c : Config := ⟨[⟨"a", 1⟩], false, false, 8⟩
    ∃ m, Reaches (step c) always (start sampleSource fun _ => none) m ∧ m.copied = 1 ∧
      ∀ m', Reaches (step c) always (start m.source m.dest) m' →
        m'.dest = m.dest ∧ m'.copied = 0 ∧ m'.bytesCopied = 0 := by
  intro c
  have ran : runAll (step c) always (start sampleSource fun _ => none)
      [.scan, .call 0 .returns, .call 0 .returns, .call 0 .returns, .call 0 .returns] = some _ :=
    rfl
  have run := reaches_of_runAll ran
  refine ⟨_, run, rfl, fun m' again =>
    migrate_again (by decide) rfl rfl ?_ run ⟨rfl, ?_⟩ rfl rfl again⟩
  · intro obj mem
    obtain rfl := List.mem_singleton.mp mem
    exact ⟨_, rfl, rfl⟩
  · intro t mem
    obtain rfl := List.mem_singleton.mp mem
    rfl

end GigaPdf.Migration
