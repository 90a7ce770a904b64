import GigaPdf.Lib.Runs
import Mathlib.Algebra.BigOperators.Group.List.Basic
import Mathlib.Algebra.GroupWithZero.Nat
import Mathlib.Data.Prod.Lex
import Mathlib.Data.String.Basic
import Mathlib.Data.List.Sort

/-!
# The cache of fonts

`font-cache.ts`, a cache in IndexedDB. Every transaction is one step, and between the transactions
of one call those of other calls may come. What `Date.now()` says stands in the events.
-/

namespace GigaPdf.FontCache

open Runs

abbrev ArrayBuffer := List UInt8

inductive FontSource
  | embedded | google
deriving DecidableEq, Repr

inductive FontFaceStyle
  | normal | italic
deriving DecidableEq, Repr

structure FontCacheMeta where
  source : FontSource
  weight : Option Nat
  style : Option FontFaceStyle
deriving DecidableEq, Repr

structure CacheEntry where
  key : String
  data : ArrayBuffer
  expiresAt : Int
  lastAccessedAt : Int
  sizeBytes : Nat
  info : Option FontCacheMeta
deriving DecidableEq

def defaultTtlMs : Int := 7 * 24 * 60 * 60 * 1000

def maxTotalBytes : Nat := 50 * 1024 * 1024

def buildKey (documentId fontId : String) : String := documentId ++ ":" ++ fontId

/-! ## The object store -/

/-- The entries, one for each key. -/
abbrev ObjectStore := List CacheEntry

def get (store : ObjectStore) (key : String) : Option CacheEntry := store.find? (·.key = key)

def delete (store : ObjectStore) (key : String) : ObjectStore := store.filter (·.key ≠ key)

def put (store : ObjectStore) (e : CacheEntry) : ObjectStore := delete store e.key ++ [e]

def deleteAll (store : ObjectStore) (keys : List String) : ObjectStore := keys.foldl delete store

/-- The place of an entry in the index: entries of one time are in the order of their keys. -/
def accessed (e : CacheEntry) : Int ×ₗ String := toLex (e.lastAccessedAt, e.key)

/-- The cursor over the index. -/
def oldestFirst (store : ObjectStore) : List CacheEntry :=
  store.insertionSort fun a b => accessed a ≤ accessed b

def expiredKeys (now : Int) (store : ObjectStore) : List String :=
  (store.filter (·.expiresAt ≤ now)).map (·.key)

def totalBytes (entries : List CacheEntry) : Nat := (entries.map (·.sizeBytes)).sum

/-- The loop that pushes the oldest entries until what is left of `total` fits. -/
def evictLoop (total : Nat) : List CacheEntry → List String
  | [] => []
  | e :: entries =>
    if total - e.sizeBytes ≤ maxTotalBytes then [e.key]
    else e.key :: evictLoop (total - e.sizeBytes) entries

/-- `toEvict` -/
def oversize (store : ObjectStore) : List String :=
  let entries := oldestFirst store
  let total := totalBytes entries
  if total ≤ maxTotalBytes then [] else evictLoop total entries

/-! ## Calls and transactions -/

/-- What is still to be done of the calls. -/
inductive Pending
  | read (key : String)
  /-- A `getEntry` that has read. -/
  | answer (key : String) (entry : Option CacheEntry)
  /-- A write, and whether evictions follow. -/
  | write (e : CacheEntry) (evicts : Bool)
  | remove (key : String)
  | scanExpired
  | scanSize
  | removeAll (keys : List String)
  | clear

structure SetCall where
  key : String
  data : ArrayBuffer
  now : Int
  ttlMs : Int
  info : Option FontCacheMeta

/-- A `getEntry` that has found something, and when. -/
structure Hit where
  key : String
  data : ArrayBuffer
  info : Option FontCacheMeta
  now : Int

structure Cache where
  store : ObjectStore
  pending : List Pending
  /-- The calls of `set` and the hits up to now. -/
  sets : List SetCall
  hits : List Hit

def empty : Cache := ⟨[], [], [], []⟩

inductive Event
  | get (documentId fontId : String)
  | set (documentId fontId : String) (data : ArrayBuffer) (ttlMs : Option Int)
    (info : Option FontCacheMeta) (now : Int)
  | delete (documentId fontId : String)
  | evictExpired
  | clear
  /-- The next transaction of a call, or what follows it; the time may be asked for twice. -/
  | run (i : Nat) (now later : Int)
  /-- The transaction fails, and with it the call. -/
  | fail (i : Nat)

def SetCall.entry (c : SetCall) : CacheEntry where
  key := c.key
  data := c.data
  expiresAt := c.now + c.ttlMs
  lastAccessedAt := c.now
  sizeBytes := c.data.length
  info := c.info

def begin (s : Cache) (p : Pending) : Cache := { s with pending := s.pending ++ [p] }

/-- What a transaction makes of the store, and what is to be done after it. -/
def transact (store : ObjectStore) (now later : Int) : Pending → ObjectStore × List Pending
  | .read key => (store, [.answer key (get store key)])
  | .answer _ none => (store, [])
  | .answer key (some e) =>
    (store, if e.expiresAt < now then [.remove key]
      else [.write { e with lastAccessedAt := later } false])
  | .write e evicts => (put store e, if evicts then [.scanExpired, .scanSize] else [])
  | .remove key => (delete store key, [])
  | .scanExpired => (store, [.removeAll (expiredKeys now store)])
  | .scanSize => (store, [.removeAll (oversize store)])
  | .removeAll keys => (deleteAll store keys, [])
  | .clear => ([], [])

/-- What a call returns. -/
def hit (now : Int) : Pending → Option Hit
  | .answer key (some e) => if e.expiresAt < now then none else some ⟨key, e.data, e.info, now⟩
  | _ => none

def step (s : Cache) : Event → Option Cache
  | .get documentId fontId => some (begin s (.read (buildKey documentId fontId)))
  | .set documentId fontId data ttlMs info now =>
    let call : SetCall := ⟨buildKey documentId fontId, data, now, ttlMs.getD defaultTtlMs, info⟩
    some { begin s (.write call.entry true) with sets := s.sets ++ [call] }
  | .delete documentId fontId => some (begin s (.remove (buildKey documentId fontId)))
  | .evictExpired => some (begin s .scanExpired)
  | .clear => some (begin s .clear)
  | .run i now later =>
    s.pending[i]?.map fun p =>
      { s with
        store := (transact s.store now later p).1
        pending := s.pending.eraseIdx i ++ (transact s.store now later p).2
        hits := s.hits ++ (hit now p).toList }
  | .fail i =>
    if i < s.pending.length then some { s with pending := s.pending.eraseIdx i } else none

/-! ## What is found -/

theorem mem_delete {store : ObjectStore} {key : String} {e : CacheEntry} :
    e ∈ delete store key ↔ e ∈ store ∧ e.key ≠ key := by
  simp [delete]

theorem mem_deleteAll {store : ObjectStore} {keys : List String} {e : CacheEntry} :
    e ∈ deleteAll store keys ↔ e ∈ store ∧ e.key ∉ keys := by
  induction keys generalizing store with
  | nil => simp [deleteAll]
  | cons key keys ih =>
    rw [deleteAll, List.foldl_cons, ← deleteAll, ih, mem_delete, List.mem_cons, not_or, and_assoc]

theorem mem_put {store : ObjectStore} {e e' : CacheEntry} :
    e' ∈ put store e ↔ e' ∈ store ∧ e'.key ≠ e.key ∨ e' = e := by
  rw [put, List.mem_append, mem_delete, List.mem_singleton]

/-- The entry is what some call has set, but for the time of its last access. -/
def SetBefore (sets : List SetCall) (e : CacheEntry) : Prop :=
  ∃ c ∈ sets, e = { c.entry with lastAccessedAt := e.lastAccessedAt }

/-- What is to be done was set before. -/
def Pending.Sound (sets : List SetCall) : Pending → Prop
  | .answer key (some e) => SetBefore sets e ∧ e.key = key
  | .write e _ => SetBefore sets e
  | _ => True

structure Sound (s : Cache) : Prop where
  store : ∀ e ∈ s.store, SetBefore s.sets e
  pending : ∀ p ∈ s.pending, p.Sound s.sets
  hits : ∀ h ∈ s.hits, ∃ c ∈ s.sets, h.key = c.key ∧ h.data = c.data ∧ h.info = c.info ∧
    h.now ≤ c.now + c.ttlMs

theorem SetBefore.mono {sets : List SetCall} {e : CacheEntry} (h : SetBefore sets e) (c : SetCall) :
    SetBefore (sets ++ [c]) e := by
  obtain ⟨c', mem, shape⟩ := h
  exact ⟨c', List.mem_append_left _ mem, shape⟩

theorem Pending.Sound.mono {sets : List SetCall} {p : Pending} (h : p.Sound sets) (c : SetCall) :
    p.Sound (sets ++ [c]) := by
  cases p with
  | answer key entry =>
    cases entry with
    | none => trivial
    | some e => exact ⟨SetBefore.mono h.1 c, h.2⟩
  | write => exact SetBefore.mono h c
  | read | remove | scanExpired | scanSize | removeAll | clear => trivial

theorem sound_begin {s : Cache} (h : Sound s) {p : Pending} (sound : p.Sound s.sets) :
    Sound (begin s p) := by
  refine ⟨h.store, fun q mem => ?_, h.hits⟩
  obtain old | new := List.mem_append.mp mem
  · exact h.pending q old
  · exact List.mem_singleton.mp new ▸ sound

theorem sound_put {sets : List SetCall} {store : ObjectStore} {e : CacheEntry}
    (stored : ∀ e ∈ store, SetBefore sets e) (sound : SetBefore sets e) :
    ∀ e' ∈ put store e, SetBefore sets e' := by
  intro e' mem
  obtain ⟨old, -⟩ | rfl := mem_put.mp mem
  · exact stored e' old
  · exact sound

/-- The time of the last access may change. -/
theorem SetBefore.touch {sets : List SetCall} {e : CacheEntry} (h : SetBefore sets e) (now : Int) :
    SetBefore sets { e with lastAccessedAt := now } := by
  obtain ⟨c, mem, shape⟩ := h
  refine ⟨c, mem, ?_⟩
  rw [shape]

/-- A transaction writes and hands on nothing that was not set. -/
theorem sound_transact {sets : List SetCall} {store : ObjectStore} {p : Pending} (now later : Int)
    (stored : ∀ e ∈ store, SetBefore sets e) (sound : p.Sound sets) :
    (∀ e ∈ (transact store now later p).1, SetBefore sets e) ∧
      ∀ q ∈ (transact store now later p).2, q.Sound sets := by
  cases p with
  | read key =>
    refine ⟨stored, fun q mem => ?_⟩
    obtain rfl := List.mem_singleton.mp mem
    cases found : get store key with
    | none => trivial
    | some e =>
      have here : e.key = key := by simpa using List.find?_some found
      exact ⟨stored e (List.mem_of_find?_eq_some found), here⟩
  | answer key entry =>
    cases entry with
    | none => exact ⟨stored, by simp [transact]⟩
    | some e =>
      refine ⟨stored, fun q mem => ?_⟩
      rw [transact] at mem
      split at mem
      · obtain rfl := List.mem_singleton.mp mem
        trivial
      · obtain rfl := List.mem_singleton.mp mem
        exact sound.1.touch later
  | write e evicts =>
    refine ⟨sound_put stored sound, fun q mem => ?_⟩
    cases evicts with
    | false => cases mem
    | true =>
      obtain rfl | rfl := List.mem_pair.mp mem
      · trivial
      · trivial
  | remove key => exact ⟨fun e mem => stored e (mem_delete.mp mem).1, nofun⟩
  | removeAll keys => exact ⟨fun e mem => stored e (mem_deleteAll.mp mem).1, nofun⟩
  | clear => exact ⟨nofun, nofun⟩
  | scanExpired | scanSize =>
    refine ⟨stored, fun q mem => ?_⟩
    obtain rfl := List.mem_singleton.mp mem
    trivial

theorem sound_hit {sets : List SetCall} {p : Pending} {now : Int} (sound : p.Sound sets) {h : Hit}
    (found : hit now p = some h) : ∃ c ∈ sets, h.key = c.key ∧ h.data = c.data ∧
      h.info = c.info ∧ h.now ≤ c.now + c.ttlMs := by
  rw [hit.eq_def] at found
  split at found
  · rename_i key e
    obtain ⟨live, given⟩ := Option.ite_none_left_eq_some.mp found
    cases given
    obtain ⟨⟨c, mem, shape⟩, rfl⟩ := sound
    rw [shape] at live ⊢
    exact ⟨c, mem, rfl, rfl, rfl, Int.not_lt.mp live⟩
  · cases found

theorem sound_step {s t : Cache} {e : Event} (h : Sound s) (next : step s e = some t) :
    Sound t := by
  cases e with
  | get | delete | evictExpired | clear =>
    cases next
    exact sound_begin h trivial
  | set documentId fontId data ttlMs info now =>
    cases next
    have logged : Sound { s with sets := s.sets ++ [⟨buildKey documentId fontId, data, now,
        ttlMs.getD defaultTtlMs, info⟩] } := by
      refine ⟨fun e mem => (h.store e mem).mono _, fun p mem => (h.pending p mem).mono _, ?_⟩
      intro found mem
      obtain ⟨c, there, rest⟩ := h.hits found mem
      exact ⟨c, List.mem_append_left _ there, rest⟩
    exact sound_begin logged ⟨_, List.mem_append_right _ (List.mem_singleton_self _), rfl⟩
  | run i now later =>
    obtain ⟨p, there, given⟩ := Option.map_eq_some_iff.mp next
    cases given
    have sound := h.pending p (List.mem_of_getElem? there)
    obtain ⟨stored, handed⟩ := sound_transact now later h.store sound
    refine ⟨stored, fun q mem => ?_, fun found mem => ?_⟩
    · obtain old | new := List.mem_append.mp mem
      · exact h.pending q (List.mem_of_mem_eraseIdx old)
      · exact handed q new
    · obtain old | new := List.mem_append.mp mem
      · exact h.hits found old
      · exact sound_hit sound (Option.mem_toList.mp new)
  | fail i =>
    obtain ⟨-, given⟩ := Option.ite_none_right_eq_some.mp next
    cases given
    exact ⟨h.store, fun q mem => h.pending q (List.mem_of_mem_eraseIdx mem), h.hits⟩

/-- **A hit is what was set**: however the transactions of the calls are mixed, whichever of them
fail and whatever is evicted in between, a font that is found has the bytes and the descriptors that
a call has set under its key, and has not outlived the time that the call has given it. -/
theorem hits_sound {s : Cache} (run : Reaches step always empty s) {h : Hit} (found : h ∈ s.hits) :
    ∃ c ∈ s.sets, h.key = c.key ∧ h.data = c.data ∧ h.info = c.info ∧ h.now ≤ c.now + c.ttlMs := by
  have sound : Sound s := by
    refine run.invariant (P := Sound) (fun _ _ _ h _ next => sound_step h next) ?_
    exact ⟨nofun, nofun, nofun⟩
  exact sound.hits h found

/-- A font that is found while the evictions after it still wait. -/
theorem hits_sound_one :
    ∃ s : Cache, s.hits.length = 1 ∧ ∀ h ∈ s.hits, ∃ c ∈ s.sets, h.key = c.key ∧ h.data = c.data ∧
      h.info = c.info ∧ h.now ≤ c.now + c.ttlMs := by
  obtain ⟨s, run, one⟩ := exists_reaches_of_runAll step always empty
    [.set "doc" "F1" [1, 2] none none 0, .run 0 1 1, .get "doc" "F1", .run 2 2 2, .run 2 3 4]
    (fun s => s.hits.length = 1) (by decide +kernel)
  exact ⟨s, one, fun h found => hits_sound run found⟩

/-! ## What is evicted -/

def Distinct (store : ObjectStore) : Prop := (store.map (·.key)).Nodup

theorem distinct_delete {store : ObjectStore} (h : Distinct store) (key : String) :
    Distinct (delete store key) :=
  h.sublist (List.Sublist.map _ List.filter_sublist)

theorem distinct_deleteAll {store : ObjectStore} (h : Distinct store) (keys : List String) :
    Distinct (deleteAll store keys) := by
  induction keys generalizing store with
  | nil => exact h
  | cons key keys ih => exact ih (distinct_delete h key)

theorem distinct_put {store : ObjectStore} (h : Distinct store) (e : CacheEntry) :
    Distinct (put store e) := by
  rw [Distinct, put, List.map_append]
  refine List.nodup_append.mpr ⟨distinct_delete h e.key, List.nodup_singleton _, ?_⟩
  intro key old key' new same
  obtain ⟨e', mem, rfl⟩ := List.mem_map.mp old
  obtain rfl := List.mem_singleton.mp new
  exact (mem_delete.mp mem).2 same

theorem distinct_transact {store : ObjectStore} (h : Distinct store) (now later : Int)
    (p : Pending) : Distinct (transact store now later p).1 := by
  cases p with
  | read | scanExpired | scanSize => exact h
  | answer key entry => cases entry <;> exact h
  | write e => exact distinct_put h e
  | remove key => exact distinct_delete h key
  | removeAll keys => exact distinct_deleteAll h keys
  | clear => exact .nil

theorem distinct_of_run {s : Cache} (run : Reaches step always empty s) : Distinct s.store := by
  have start : Distinct empty.store := List.nodup_nil
  refine run.invariant (P := fun s => Distinct s.store) ?_ start
  intro s e t h _ next
  cases e with
  | get | set | delete | evictExpired | clear =>
    cases next
    exact h
  | run i now later =>
    obtain ⟨p, -, given⟩ := Option.map_eq_some_iff.mp next
    cases given
    exact distinct_transact h now later p
  | fail i =>
    obtain ⟨-, given⟩ := Option.ite_none_right_eq_some.mp next
    cases given
    exact h

/-- The bytes of an entry and of those that were accessed after it. -/
def bytesSince (entries : List CacheEntry) (e : CacheEntry) : Nat :=
  totalBytes (entries.filter fun e' => accessed e ≤ accessed e')

theorem totalBytes_cons (e : CacheEntry) (entries : List CacheEntry) :
    totalBytes (e :: entries) = e.sizeBytes + totalBytes entries := by
  rw [totalBytes, List.map_cons, List.sum_cons, totalBytes]

/-- Some of the entries hold at most what all of them hold. -/
theorem totalBytes_filter_le (entries : List CacheEntry) (p : CacheEntry → Bool) :
    totalBytes (entries.filter p) ≤ totalBytes entries := by
  induction entries with
  | nil => exact Nat.le_refl _
  | cons e entries ih =>
    rw [List.filter_cons]
    split
    · rw [totalBytes_cons, totalBytes_cons]
      omega
    · rw [totalBytes_cons]
      omega

theorem bytesSince_head {e : CacheEntry} {entries : List CacheEntry}
    (oldest : ∀ e' ∈ entries, accessed e < accessed e') :
    bytesSince (e :: entries) e = totalBytes (e :: entries) := by
  rw [bytesSince, List.filter_eq_self.mpr]
  intro e' mem
  obtain rfl | later := List.mem_cons.mp mem
  · simp
  · simpa using (oldest e' later).le

theorem bytesSince_tail {a e : CacheEntry} {entries : List CacheEntry}
    (older : accessed a < accessed e) : bytesSince (a :: entries) e = bytesSince entries e := by
  rw [bytesSince, List.filter_cons_of_neg (by simpa using older), bytesSince]

/-- The loop evicts the entries that do not fit with those that were accessed after them. -/
theorem mem_evictLoop_iff {entries : List CacheEntry}
    (sorted : entries.Pairwise fun a b => accessed a < accessed b)
    (distinct : Distinct entries) (large : maxTotalBytes < totalBytes entries) {e : CacheEntry}
    (mem : e ∈ entries) :
    e.key ∈ evictLoop (totalBytes entries) entries ↔ maxTotalBytes < bytesSince entries e := by
  induction entries with
  | nil => cases mem
  | cons a entries ih =>
    obtain ⟨oldest, sorted⟩ := List.pairwise_cons.mp sorted
    obtain ⟨other, distinct⟩ := List.nodup_cons.mp distinct
    have rest : totalBytes (a :: entries) - a.sizeBytes = totalBytes entries := by
      rw [totalBytes_cons, Nat.add_sub_cancel_left]
    have elsewhere : ∀ e ∈ entries, e.key ≠ a.key := fun e there same =>
      other (List.mem_map.mpr ⟨e, there, same⟩)
    rw [evictLoop, rest]
    obtain rfl | there := List.mem_cons.mp mem
    · rw [bytesSince_head oldest]
      refine iff_of_true ?_ large
      split
      · exact List.mem_singleton_self _
      · exact List.mem_cons_self
    · rw [bytesSince_tail (oldest e there)]
      split
      · rename_i fits
        have less := totalBytes_filter_le entries fun e' => accessed e ≤ accessed e'
        refine iff_of_false ?_ (Nat.not_lt.mpr (less.trans fits))
        rw [List.mem_singleton]
        exact elsewhere e there
      · rename_i tooMuch
        rw [List.mem_cons, or_iff_right (elsewhere e there)]
        exact ih sorted distinct (Nat.lt_of_not_le tooMuch) there

theorem perm_oldestFirst (store : ObjectStore) : (oldestFirst store).Perm store :=
  List.perm_insertionSort _ store

/-- Entries of different keys have different places in the index. -/
theorem sorted_oldestFirst {store : ObjectStore} (distinct : Distinct store) :
    (oldestFirst store).Pairwise fun a b => accessed a < accessed b := by
  have sorted : (oldestFirst store).Pairwise fun a b => accessed a ≤ accessed b :=
    List.pairwise_insertionSort _ store
  have keys : ((oldestFirst store).map (·.key)).Nodup :=
    ((perm_oldestFirst store).map _).nodup_iff.mpr distinct
  refine (sorted.and (List.pairwise_map.mp keys)).imp ?_
  rintro a b ⟨le, apart⟩
  refine lt_of_le_of_ne le fun same => apart ?_
  exact congrArg Prod.snd (toLex.injective same)

theorem totalBytes_perm {entries entries' : List CacheEntry} (perm : entries.Perm entries') :
    totalBytes entries = totalBytes entries' := (perm.map _).sum_eq

/-- **Which fonts are evicted**: whatever calls were made before, an eviction by size keeps just the
fonts that fit into the cache together with all those that were accessed after them. -/
theorem evicted_iff {s : Cache} (run : Reaches step always empty s) {e : CacheEntry}
    (mem : e ∈ s.store) :
    e ∈ deleteAll s.store (oversize s.store) ↔ bytesSince s.store e ≤ maxTotalBytes := by
  have distinct := distinct_of_run run
  have perm := perm_oldestFirst s.store
  have since : bytesSince (oldestFirst s.store) e = bytesSince s.store e :=
    totalBytes_perm (perm.filter _)
  rw [mem_deleteAll, and_iff_right mem, oversize]
  split
  · rename_i fits
    have less := totalBytes_filter_le s.store fun e' => accessed e ≤ accessed e'
    refine iff_of_true List.not_mem_nil (less.trans ?_)
    rwa [totalBytes_perm perm] at fits
  · rename_i tooMuch
    rw [mem_evictLoop_iff (sorted_oldestFirst distinct)
      ((perm.map _).nodup_iff.mpr distinct) (Nat.lt_of_not_le tooMuch) (perm.mem_iff.mpr mem),
      since, Nat.not_lt]

theorem evicted_iff_two :
    ∃ s : Cache, s.store.length = 2 ∧ ∀ e ∈ s.store,
      (e ∈ deleteAll s.store (oversize s.store) ↔ bytesSince s.store e ≤ maxTotalBytes) := by
  obtain ⟨s, run, two⟩ := exists_reaches_of_runAll step always empty
    [.set "doc" "F1" [1, 2] none none 0, .set "doc" "F2" [3] none none 1, .run 1 2 2, .run 0 3 3]
    (fun s => s.store.length = 2) (by decide +kernel)
  exact ⟨s, two, fun e mem => evicted_iff run mem⟩

end GigaPdf.FontCache
