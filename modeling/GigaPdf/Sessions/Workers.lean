import GigaPdf.Lib.Lru
import Mathlib.Logic.Function.Basic

/-!
# Sessions of several workers

Each worker has a cache of its own and looks there first; all of them share one Redis, which is
taken to be available. The keys of a session are written and deleted together, so Redis holds one
value for each document. Sessions do not expire here.
-/

namespace GigaPdf

/-- What a session holds is given by the upload and the mutations since. -/
structure DocumentSession (δ μ : Type) where
  uploaded : δ
  mutations : List μ
deriving DecidableEq

def DocumentSession.mutate {δ μ : Type} (session : DocumentSession δ μ) (m : μ) :
    DocumentSession δ μ :=
  { session with mutations := session.mutations ++ [m] }

theorem DocumentSession.mutate_injective {δ μ : Type} (m : μ) :
    Function.Injective fun session : DocumentSession δ μ => session.mutate m := by
  intro ⟨u, ms⟩ ⟨v, ns⟩ h
  simpa [DocumentSession.mutate] using h

inductive SessionRequest (ω ι δ μ : Type) where
  | create (worker : ω) (documentId : ι) (uploaded : δ)
  | read (worker : ω) (documentId : ι)
  | mutate (worker : ω) (documentId : ι) (m : μ)
  | close (worker : ω) (documentId : ι)

namespace SessionRequest

variable {ω ι δ μ : Type}

def worker : SessionRequest ω ι δ μ → ω
  | create w _ _ => w
  | read w _ => w
  | mutate w _ _ => w
  | close w _ => w

def documentId : SessionRequest ω ι δ μ → ι
  | create _ d _ => d
  | read _ d => d
  | mutate _ d _ => d
  | close _ d => d

end SessionRequest

section
variable {ω ι δ μ : Type} [DecidableEq ι]

/-! ## One sequential store -/

/-- The same requests at a store that all workers share. -/
def serve (store : ι → Option (DocumentSession δ μ)) :
    SessionRequest ω ι δ μ → Option (DocumentSession δ μ) × (ι → Option (DocumentSession δ μ))
  | .create _ d uploaded => (some ⟨uploaded, []⟩, Function.update store d (some ⟨uploaded, []⟩))
  | .read _ d => (store d, store)
  | .mutate _ d m =>
    match store d with
    | none => (none, store)
    | some session => (some (session.mutate m), Function.update store d (some (session.mutate m)))
  | .close _ d => (none, Function.update store d none)

theorem serve_mutate (store : ι → Option (DocumentSession δ μ)) (w : ω) (d : ι) (m : μ) :
    (serve store (.mutate w d m)).1 = (store d).map (·.mutate m) ∧
      (serve store (.mutate w d m)).2 =
        if (store d).isSome then Function.update store d ((store d).map (·.mutate m))
        else store := by
  simp only [serve]
  cases store d <;> exact ⟨rfl, rfl⟩

/-- A session that is answered is what the store holds. -/
theorem serve_answer {store : ι → Option (DocumentSession δ μ)}
    {request : SessionRequest ω ι δ μ} {session : DocumentSession δ μ}
    (h : (serve store request).1 = some session) :
    (serve store request).2 request.documentId = some session := by
  cases request with
  | create w d uploaded => simpa [serve, SessionRequest.documentId] using h
  | read w d => exact h
  | mutate w d m =>
    simp only [serve, SessionRequest.documentId] at h ⊢
    cases saved : store d with
    | none => simp [saved] at h
    | some stored => simpa [saved] using h
  | close w d => cases h

theorem serve_other (store : ι → Option (DocumentSession δ μ)) {request : SessionRequest ω ι δ μ}
    {e : ι} (other : e ≠ request.documentId) : (serve store request).2 e = store e := by
  cases request with
  | create w d uploaded => exact Function.update_of_ne other _ _
  | read w d => rfl
  | mutate w d m =>
    simp only [serve]
    cases store d with
    | none => rfl
    | some stored => exact Function.update_of_ne other _ _
  | close w d => exact Function.update_of_ne other _ _

/-- The answers of the store, each with what it holds after it. -/
def serveAll : (ι → Option (DocumentSession δ μ)) → List (SessionRequest ω ι δ μ) →
    List (Option (DocumentSession δ μ) × (ι → Option (DocumentSession δ μ)))
  | _, [] => []
  | store, request :: rest => serve store request :: serveAll (serve store request).2 rest

/-- What the workers have in their caches, and what they share. -/
structure Workers (ω ι δ μ : Type) where
  localCache : ω → AList fun _ : ι => DocumentSession δ μ
  redis : ι → Option (DocumentSession δ μ)

variable [DecidableEq ω]

/-! ## The session manager -/

namespace Workers

def new : Workers ω ι δ μ := ⟨fun _ => ∅, fun _ => none⟩

variable (workers : Workers ω ι δ μ)

def setCache (w : ω) (cache : AList fun _ : ι => DocumentSession δ μ) : Workers ω ι δ μ :=
  { workers with localCache := Function.update workers.localCache w cache }

def setRedis (d : ι) (session : Option (DocumentSession δ μ)) : Workers ω ι δ μ :=
  { workers with redis := Function.update workers.redis d session }

variable (maxLocalSessions : ω → Int) (opens : DocumentSession δ μ → Bool)

/-- Without capacity the eviction empties the cache and then raises. -/
def addToLocalCache (w : ω) (d : ι) (session : DocumentSession δ μ) :
    Option (DocumentSession δ μ) × Workers ω ι δ μ :=
  match Lru.add (maxLocalSessions w) d session (workers.localCache w) with
  | some cache => (some session, workers.setCache w cache)
  | none => (none, workers.setCache w ∅)

def createSession (w : ω) (d : ι) (uploaded : δ) :
    Option (DocumentSession δ μ) × Workers ω ι δ μ :=
  (workers.setRedis d (some ⟨uploaded, []⟩)).addToLocalCache maxLocalSessions w d ⟨uploaded, []⟩

/-- Whatever raises in the load leaves the session not found: a PDF that pikepdf does not open
without its password, or a cache that takes nothing. -/
def loadFromRedis (w : ω) (d : ι) : Option (DocumentSession δ μ) × Workers ω ι δ μ :=
  match workers.redis d with
  | none => (none, workers)
  | some session =>
    if opens session then workers.addToLocalCache maxLocalSessions w d session
    else (none, workers)

def getSession (w : ω) (d : ι) : Option (DocumentSession δ μ) × Workers ω ι δ μ :=
  match (workers.localCache w).lookup d with
  | some session => (some session, workers.setCache w ((workers.localCache w).insert d session))
  | none => workers.loadFromRedis maxLocalSessions opens w d

def saveSession (w : ω) (d : ι) : Bool × Workers ω ι δ μ :=
  match (workers.localCache w).lookup d with
  | none => (false, workers)
  | some session => (true, workers.setRedis d (some session))

def deleteSession (w : ω) (d : ι) : Workers ω ι δ μ :=
  (workers.setCache w ((workers.localCache w).erase d)).setRedis d none

/-- The response holds the session that is read or written. -/
def handle : SessionRequest ω ι δ μ → Option (DocumentSession δ μ) × Workers ω ι δ μ
  | .create w d uploaded => workers.createSession maxLocalSessions w d uploaded
  | .read w d => workers.getSession maxLocalSessions opens w d
  | .mutate w d m =>
    match workers.getSession maxLocalSessions opens w d with
    | (none, found) => (none, found)
    | (some session, found) =>
      -- the session is the object in the cache, where it is the newest entry
      let cache := (found.localCache w).insert d (session.mutate m)
      let (saved, next) := (found.setCache w cache).saveSession w d
      (if saved then some (session.mutate m) else none, next)
  | .close w d => (none, workers.deleteSession w d)

end Workers

/-! ## When the workers act as one store -/

namespace Workers

variable (workers : Workers ω ι δ μ)
variable (maxLocalSessions : ω → Int) (opens : DocumentSession δ μ → Bool)

/-- The worker's copy is the saved one; without a copy, it can load what is saved. -/
def UpToDate (w : ω) (d : ι) : Prop :=
  match (workers.localCache w).lookup d with
  | some session => workers.redis d = some session
  | none => ∀ session, workers.redis d = some session → 1 ≤ maxLocalSessions w ∧ opens session

def Coherent : SessionRequest ω ι δ μ → Prop
  | .create w _ _ => 1 ≤ maxLocalSessions w
  | .read w d => workers.UpToDate maxLocalSessions opens w d
  | .mutate w d _ => workers.UpToDate maxLocalSessions opens w d
  | .close _ _ => True

theorem addToLocalCache_redis (w : ω) (d : ι) (session : DocumentSession δ μ) :
    (workers.addToLocalCache maxLocalSessions w d session).2.redis = workers.redis := by
  unfold addToLocalCache
  split <;> rfl

theorem addToLocalCache_fst (w : ω) (d : ι) (session : DocumentSession δ μ) :
    (workers.addToLocalCache maxLocalSessions w d session).1 =
      if 1 ≤ maxLocalSessions w then some session else none := by
  have room : (Lru.add (maxLocalSessions w) d session (workers.localCache w)).isSome ↔
      1 ≤ maxLocalSessions w := Lru.add_isSome
  unfold addToLocalCache
  cases added : Lru.add (maxLocalSessions w) d session (workers.localCache w) with
  | none =>
    rw [added] at room
    rw [if_neg (fun h => by simpa using room.mpr h)]
  | some cache =>
    rw [added] at room
    rw [if_pos (room.mp rfl)]

/-- A lookup of a session changes nothing in Redis. -/
theorem getSession_redis (w : ω) (d : ι) :
    (workers.getSession maxLocalSessions opens w d).2.redis = workers.redis := by
  unfold getSession
  split
  · rfl
  · unfold loadFromRedis
    split
    · rfl
    · split
      · exact addToLocalCache_redis _ _ _ _ _
      · rfl

/-- A worker finds what is saved exactly when it is up to date. -/
theorem getSession_fst_iff (w : ω) (d : ι) :
    (workers.getSession maxLocalSessions opens w d).1 = workers.redis d ↔
      workers.UpToDate maxLocalSessions opens w d := by
  unfold getSession UpToDate
  cases cached : (workers.localCache w).lookup d with
  | some copy => exact eq_comm
  | none =>
    simp only [loadFromRedis]
    cases saved : workers.redis d with
    | none => simp
    | some stored =>
      by_cases opened : opens stored = true
      · simp [opened, addToLocalCache_fst]
      · simp [opened]

/-- What a mutating request answers and leaves in Redis depends on what the worker finds. -/
theorem handle_mutate (w : ω) (d : ι) (m : μ) :
    let found := (workers.getSession maxLocalSessions opens w d).1
    (workers.handle maxLocalSessions opens (.mutate w d m)).1 = found.map (·.mutate m) ∧
      (workers.handle maxLocalSessions opens (.mutate w d m)).2.redis =
        if found.isSome then Function.update workers.redis d (found.map (·.mutate m))
        else workers.redis := by
  have kept := workers.getSession_redis maxLocalSessions opens w d
  simp only [handle]
  cases looked : workers.getSession maxLocalSessions opens w d with
  | mk found next =>
    rw [looked] at kept
    cases found with
    | none => exact ⟨rfl, kept⟩
    | some session =>
      simp only [saveSession, setCache, Function.update_self, AList.lookup_insert, setRedis]
      exact ⟨rfl, by simp only [Option.isSome_some, if_true, Option.map_some]; rw [← kept]⟩

/-- A request is answered as by the store, and leaves it in Redis, exactly when it is coherent. -/
theorem handle_eq_serve_iff (request : SessionRequest ω ι δ μ) :
    ((workers.handle maxLocalSessions opens request).1,
        (workers.handle maxLocalSessions opens request).2.redis) = serve workers.redis request ↔
      workers.Coherent maxLocalSessions opens request := by
  cases request with
  | create w d uploaded =>
    simp only [handle, createSession, serve, Coherent, addToLocalCache_fst,
      addToLocalCache_redis, Prod.mk.injEq]
    exact ⟨fun h => by simpa using h.1, fun h => ⟨by rw [if_pos h], rfl⟩⟩
  | read w d =>
    simp only [handle, serve, Coherent, getSession_redis, Prod.mk.injEq, and_true]
    exact getSession_fst_iff workers maxLocalSessions opens w d
  | mutate w d m =>
    obtain ⟨answer, stored⟩ := workers.handle_mutate maxLocalSessions opens w d m
    obtain ⟨answer', stored'⟩ := serve_mutate workers.redis w d m
    rw [Prod.ext_iff, answer, stored, answer', stored', Coherent, ← getSession_fst_iff]
    constructor
    · rintro ⟨same, _⟩
      exact Option.map_injective (DocumentSession.mutate_injective m) same
    · intro same
      rw [same]
      exact ⟨rfl, rfl⟩
  | close w d => exact ⟨fun _ => trivial, fun _ => rfl⟩

/-! ## Runs -/

/-- The answers of a run, each with what Redis holds after it. -/
def trace : Workers ω ι δ μ → List (SessionRequest ω ι δ μ) →
    List (Option (DocumentSession δ μ) × (ι → Option (DocumentSession δ μ)))
  | _, [] => []
  | workers, request :: rest =>
    let (answer, next) := workers.handle maxLocalSessions opens request
    (answer, next.redis) :: trace next rest

def AllCoherent : Workers ω ι δ μ → List (SessionRequest ω ι δ μ) → Prop
  | _, [] => True
  | workers, request :: rest =>
    workers.Coherent maxLocalSessions opens request ∧
      AllCoherent (workers.handle maxLocalSessions opens request).2 rest

/-- Every copy is at its document's worker, and is the saved one. -/
def Synced (home : ι → ω) (workers : Workers ω ι δ μ) : Prop :=
  ∀ w d session, (workers.localCache w).lookup d = some session →
    w = home d ∧ workers.redis d = some session

omit [DecidableEq ω] in
theorem new_synced (home : ι → ω) : Synced home (new : Workers ω ι δ μ) := by
  intro w d session cached
  simp [new] at cached

theorem addToLocalCache_cached (workers : Workers ω ι δ μ) (maxLocalSessions : ω → Int)
    {w v : ω} {d e : ι} {session copy : DocumentSession δ μ}
    (h : ((workers.addToLocalCache maxLocalSessions w d session).2.localCache v).lookup e =
      some copy) :
    (v = w ∧ e = d ∧
        (workers.addToLocalCache maxLocalSessions w d session).1 = some copy) ∨
      (¬(v = w ∧ e = d) ∧ (workers.localCache v).lookup e = some copy) := by
  unfold addToLocalCache at h ⊢
  by_cases here : v = w
  · subst here
    cases added : Lru.add (maxLocalSessions v) d session (workers.localCache v) with
    | none =>
      simp only [added, setCache, Function.update_self, AList.lookup_empty] at h
      cases h
    | some cache =>
      simp only [added, setCache, Function.update_self] at h
      by_cases same : e = d
      · subst same
        exact .inl ⟨rfl, rfl, (Lru.lookup_add added).symm.trans h⟩
      · exact .inr ⟨fun both => same both.2, Lru.lookup_of_add added same h⟩
  · refine .inr ⟨fun both => here both.1, ?_⟩
    split at h <;> simpa only [setCache, Function.update_of_ne here] using h

theorem getSession_cached (workers : Workers ω ι δ μ) (maxLocalSessions : ω → Int)
    (opens : DocumentSession δ μ → Bool) {w v : ω} {d e : ι} {copy : DocumentSession δ μ}
    (h : ((workers.getSession maxLocalSessions opens w d).2.localCache v).lookup e = some copy) :
    (v = w ∧ e = d ∧ (workers.getSession maxLocalSessions opens w d).1 = some copy) ∨
      (¬(v = w ∧ e = d) ∧ (workers.localCache v).lookup e = some copy) := by
  unfold getSession at h ⊢
  cases cached : (workers.localCache w).lookup d with
  | some session =>
    simp only [cached, setCache] at h ⊢
    by_cases here : v = w
    · subst here
      rw [Function.update_self] at h
      by_cases same : e = d
      · subst same
        rw [AList.lookup_insert] at h
        exact .inl ⟨rfl, rfl, h⟩
      · rw [AList.lookup_insert_ne same] at h
        exact .inr ⟨fun both => same both.2, h⟩
    · rw [Function.update_of_ne here] at h
      exact .inr ⟨fun both => here both.1, h⟩
  | none =>
    have unchanged (before : (workers.localCache v).lookup e = some copy) :
        ¬(v = w ∧ e = d) ∧ (workers.localCache v).lookup e = some copy := by
      refine ⟨?_, before⟩
      rintro ⟨rfl, rfl⟩
      rw [cached] at before
      cases before
    simp only [cached, loadFromRedis] at h ⊢
    cases saved : workers.redis d with
    | none =>
      simp only [saved] at h
      exact .inr (unchanged h)
    | some stored =>
      simp only [saved] at h ⊢
      split at h
      · next opened =>
        simp only [opened, if_true]
        exact addToLocalCache_cached workers maxLocalSessions h
      · exact .inr (unchanged h)

/-- A copy that is in a cache after a request is what was answered, or was there before. -/
theorem handle_cached (workers : Workers ω ι δ μ) (maxLocalSessions : ω → Int)
    (opens : DocumentSession δ μ → Bool) {request : SessionRequest ω ι δ μ} {v : ω} {e : ι}
    {copy : DocumentSession δ μ}
    (h : ((workers.handle maxLocalSessions opens request).2.localCache v).lookup e = some copy) :
    (v = request.worker ∧ e = request.documentId ∧
        (workers.handle maxLocalSessions opens request).1 = some copy) ∨
      (¬(v = request.worker ∧ e = request.documentId) ∧
        (workers.localCache v).lookup e = some copy) := by
  cases request with
  | create w d uploaded => exact addToLocalCache_cached _ maxLocalSessions h
  | read w d => exact getSession_cached workers maxLocalSessions opens h
  | mutate w d m =>
    have looked (h : ((workers.getSession maxLocalSessions opens w d).2.localCache v).lookup e =
        some copy) := workers.getSession_cached maxLocalSessions opens h
    simp only [handle, SessionRequest.worker, SessionRequest.documentId] at h ⊢
    cases found : workers.getSession maxLocalSessions opens w d with
    | mk session next =>
      rw [found] at looked
      cases session with
      | none =>
        simp only [found] at h
        exact (looked h).imp (fun ⟨_, _, absent⟩ => by cases absent) id
      | some session =>
        simp only [found, saveSession, setCache, setRedis, Function.update_self,
          AList.lookup_insert] at h ⊢
        by_cases here : v = w
        · subst here
          rw [Function.update_self] at h
          by_cases same : e = d
          · subst same
            rw [AList.lookup_insert] at h
            exact .inl ⟨rfl, rfl, h⟩
          · rw [AList.lookup_insert_ne same] at h
            exact (looked h).imp (fun both => absurd both.2.1 same) id
        · rw [Function.update_of_ne here] at h
          exact (looked h).imp (fun both => absurd both.1 here) id
  | close w d =>
    simp only [handle, deleteSession, setCache, setRedis] at h
    by_cases here : v = w
    · subst here
      rw [Function.update_self] at h
      by_cases same : e = d
      · subst same
        rw [AList.lookup_erase] at h
        cases h
      · rw [AList.lookup_erase_ne same] at h
        exact .inr ⟨fun both => same both.2, h⟩
    · rw [Function.update_of_ne here] at h
      exact .inr ⟨fun both => here both.1, h⟩

section
variable {maxLocalSessions : ω → Int} {opens : DocumentSession δ μ → Bool} {home : ι → ω}

omit [DecidableEq ω] in
theorem coherent_of_synced (room : ∀ d, 1 ≤ maxLocalSessions (home d))
    (opened : ∀ session, opens session) {workers : Workers ω ι δ μ} (synced : Synced home workers)
    {request : SessionRequest ω ι δ μ} (routed : request.worker = home request.documentId) :
    workers.Coherent maxLocalSessions opens request := by
  have upToDate (d : ι) : workers.UpToDate maxLocalSessions opens (home d) d := by
    unfold UpToDate
    split
    · next session cached => exact (synced _ _ _ cached).2
    · exact fun session _ => ⟨room d, opened session⟩
  cases request with
  | create w d uploaded =>
    obtain rfl : w = home d := routed
    exact room d
  | read w d =>
    obtain rfl : w = home d := routed
    exact upToDate d
  | mutate w d m =>
    obtain rfl : w = home d := routed
    exact upToDate d
  | close w d => trivial

theorem handle_synced {workers : Workers ω ι δ μ} (synced : Synced home workers)
    {request : SessionRequest ω ι δ μ} (routed : request.worker = home request.documentId)
    (coherent : workers.Coherent maxLocalSessions opens request) :
    Synced home (workers.handle maxLocalSessions opens request).2 := by
  intro v e copy cached
  have served := (workers.handle_eq_serve_iff maxLocalSessions opens request).mpr coherent
  obtain ⟨answer, stored⟩ := Prod.ext_iff.mp served
  simp only at answer stored
  rw [stored]
  obtain ⟨rfl, rfl, same⟩ | ⟨other, before⟩ := handle_cached workers maxLocalSessions opens cached
  · exact ⟨routed, serve_answer (answer ▸ same)⟩
  · obtain ⟨rfl, saved⟩ := synced v e copy before
    have elsewhere : e ≠ request.documentId := by
      rintro rfl
      exact other ⟨routed.symm, rfl⟩
    exact ⟨rfl, (serve_other _ elsewhere).trans saved⟩

/-- Where every document has one worker, no worker is ever out of date. -/
theorem allCoherent_of_home (room : ∀ d, 1 ≤ maxLocalSessions (home d))
    (opened : ∀ session, opens session) {workers : Workers ω ι δ μ} (synced : Synced home workers)
    {requests : List (SessionRequest ω ι δ μ)}
    (routed : ∀ request ∈ requests, request.worker = home request.documentId) :
    AllCoherent maxLocalSessions opens workers requests := by
  induction requests generalizing workers with
  | nil => trivial
  | cons request rest ih =>
    have toHome := routed request List.mem_cons_self
    have coherent := coherent_of_synced room opened synced toHome
    exact ⟨coherent, ih (handle_synced synced toHome coherent)
      fun later mem => routed later (List.mem_cons_of_mem _ mem)⟩

end

end Workers

end

end GigaPdf
