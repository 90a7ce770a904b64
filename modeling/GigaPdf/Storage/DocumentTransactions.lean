import GigaPdf.Storage.QuotaInvariant
import Mathlib.Data.List.Infix

/-!
# Transactions on documents

A transaction changes rows of `stored_documents` and moves counters. A row that it has changed and a
counter that it has moved are locked until it ends, so what it writes is taken as written when it
commits.
-/

namespace GigaPdf

open Ledger (charges)

inductive DocumentChange
  | insert (d : StoredDocument)
  | set (d : StoredDocument)
  | delete (id : Uuid)
deriving DecidableEq

def DocumentChange.id : DocumentChange → Uuid
  | .insert d | .set d => d.id
  | .delete id => id

/-- The row that is there afterwards. -/
def DocumentChange.written : DocumentChange → Option StoredDocument
  | .insert d | .set d => some d
  | .delete _ => none

/-- `none` when a key is taken or a foreign key has no row. -/
def DocumentChange.apply (db : Db) : DocumentChange → Option Db
  | .insert d => db.insertDocument d
  | .set d =>
    if d.quotaTenantId.all fun t => (db.tenants.find? t).isSome then some (db.flush d) else none
  | .delete id => some (db.deleteDocuments [id])

/-- The arguments of `_move_counter`. -/
structure CounterMove where
  ownerId : String
  tenantId : Option Uuid
  delta : Usage
deriving DecidableEq

def CounterMove.counter (m : CounterMove) : Counter := counterOf m.ownerId m.tenantId

def CounterMove.apply (db : Db) (m : CounterMove) : Option Db :=
  db.moveCounter clampedIncrement m.ownerId m.tenantId m.delta.1 m.delta.2

structure DocumentTransaction where
  changes : List DocumentChange
  moves : List CounterMove
  now : Time

/-- What moves add to a counter. -/
abbrev posted (moves : List CounterMove) : Counter → Usage :=
  charges CounterMove.counter CounterMove.delta moves

namespace DocumentTransaction

variable (t : DocumentTransaction)

def writeDocuments (db : Db) : Option Db := t.changes.foldlM DocumentChange.apply db

def commit (db : Db) : Option Db := do
  let db ← t.writeDocuments db
  t.moves.foldlM CounterMove.apply db

/-- The moves are what the changes make of the sums, and nothing is taken off a counter that is not
recorded on it. -/
structure Matches (db : Db) : Prop where
  matched : ∀ after, t.writeDocuments db = some after →
    ∀ c, after.recorded c = db.recorded c + posted t.moves c
  covered : ∀ done ∈ t.moves.inits, ∀ c, 0 ≤ db.recorded c + posted done c

end DocumentTransaction

/-! ## Rows -/

/-- The same rows but for the documents and their versions. -/
structure DocumentsChanged (db db' : Db) : Prop where
  folders : db'.folders = db.folders
  users : db'.users = db.users
  tenants : db'.tenants = db.tenants
  members : db'.members = db.members
  plans : db'.plans = db.plans

theorem DocumentsChanged.refl (db : Db) : DocumentsChanged db db := ⟨rfl, rfl, rfl, rfl, rfl⟩

theorem DocumentsChanged.trans {a b c : Db} (h : DocumentsChanged a b) (h' : DocumentsChanged b c) :
    DocumentsChanged a c :=
  ⟨h'.folders.trans h.folders, h'.users.trans h.users, h'.tenants.trans h.tenants,
    h'.members.trans h.members, h'.plans.trans h.plans⟩

theorem DocumentsChanged.usage {db db' : Db} (h : DocumentsChanged db db') :
    db'.usage = db.usage := by
  funext c
  cases c with
  | personal userId => rw [Db.usage, h.users, Db.usage]
  | tenant id => rw [Db.usage, h.tenants, Db.usage]

theorem DocumentChange.apply_frame {db db' : Db} {change : DocumentChange}
    (h : change.apply db = some db') : DocumentsChanged db db' := by
  cases change with
  | insert d =>
    simp only [apply, Db.insertDocument, Option.ite_none_right_eq_some] at h
    obtain ⟨-, h⟩ := h
    obtain ⟨documents, -, rfl⟩ := Option.map_eq_some_iff.mp h
    exact ⟨rfl, rfl, rfl, rfl, rfl⟩
  | set d =>
    obtain ⟨-, same⟩ := Option.ite_none_right_eq_some.mp h
    cases same
    exact ⟨rfl, rfl, rfl, rfl, rfl⟩
  | delete id =>
    cases h
    exact ⟨rfl, rfl, rfl, rfl, rfl⟩

theorem writeDocuments_frame {changes : List DocumentChange} {db db' : Db}
    (h : changes.foldlM DocumentChange.apply db = some db') : DocumentsChanged db db' := by
  induction changes generalizing db with
  | nil =>
    cases h
    exact .refl _
  | cons change rest ih =>
    rw [List.foldlM_cons] at h
    obtain ⟨middle, first, later⟩ := Option.bind_eq_some_iff.mp h
    exact (DocumentChange.apply_frame first).trans (ih later)

theorem DocumentChange.mem_apply {db db' : Db} {change : DocumentChange}
    (h : change.apply db = some db') {x : StoredDocument} (hx : x ∈ db'.documents.rows) :
    x ∈ db.documents.rows ∨ change.written = some x := by
  cases change with
  | insert d =>
    simp only [apply, Db.insertDocument, Option.ite_none_right_eq_some] at h
    obtain ⟨-, h⟩ := h
    obtain ⟨documents, inserted, rfl⟩ := Option.map_eq_some_iff.mp h
    obtain rfl | old := (Table.mem_insert? inserted).mp hx
    · exact .inr rfl
    · exact .inl old
  | set d =>
    obtain ⟨-, same⟩ := Option.ite_none_right_eq_some.mp h
    cases same
    obtain rfl | old := mem_flush hx
    · exact .inr rfl
    · exact .inl old
  | delete id =>
    cases h
    exact .inl (Table.mem_deleteWhere.mp hx).1

theorem DocumentChange.find?_apply {db db' : Db} {change : DocumentChange}
    (h : change.apply db = some db') {id : Uuid} (other : change.id ≠ id) :
    db'.documents.find? id = db.documents.find? id := by
  cases change with
  | insert d =>
    simp only [apply, Db.insertDocument, Option.ite_none_right_eq_some] at h
    obtain ⟨-, h⟩ := h
    obtain ⟨documents, inserted, rfl⟩ := Option.map_eq_some_iff.mp h
    rw [Table.find?_insert? inserted]
    exact if_neg other
  | set d =>
    obtain ⟨-, same⟩ := Option.ite_none_right_eq_some.mp h
    cases same
    rw [Db.flush, Table.find?_update]
    exact if_neg (Ne.symm other)
  | delete gone =>
    cases h
    rw [Db.deleteDocuments, Table.find?_deleteWhere]
    cases found : db.documents.find? id with
    | none => rfl
    | some d =>
      obtain ⟨-, rfl⟩ := Table.find?_eq_some.mp found
      have apart : d.id ≠ gone := Ne.symm other
      rw [Option.filter_some, if_pos]
      simpa using apart

/-- The documents of every organization name one that exists. -/
def Attributed (db : Db) : Prop :=
  ∀ d ∈ db.documents.rows, ∀ t, d.quotaTenantId = some t → (db.tenants.find? t).isSome

theorem DocumentChange.apply_attributed {db db' : Db} {change : DocumentChange}
    (attributed : Attributed db) (h : change.apply db = some db') : Attributed db' := by
  intro d hd t ht
  rw [(apply_frame h).tenants]
  obtain old | new := mem_apply h hd
  · exact attributed d old t ht
  · cases change with
    | insert x =>
      cases new
      simp only [apply, Db.insertDocument, Option.ite_none_right_eq_some] at h
      exact (Option.all_eq_true _ _).mp h.1.2 t ht
    | set x =>
      cases new
      obtain ⟨key, -⟩ := Option.ite_none_right_eq_some.mp h
      exact (Option.all_eq_true _ _).mp key t ht
    | delete id => cases new

section
variable {changes : List DocumentChange} {db db' : Db}

theorem mem_writeDocuments (h : changes.foldlM DocumentChange.apply db = some db')
    {x : StoredDocument} (hx : x ∈ db'.documents.rows) :
    x ∈ db.documents.rows ∨ ∃ change ∈ changes, change.written = some x := by
  induction changes generalizing db with
  | nil =>
    cases h
    exact .inl hx
  | cons change rest ih =>
    rw [List.foldlM_cons] at h
    obtain ⟨middle, first, later⟩ := Option.bind_eq_some_iff.mp h
    obtain old | ⟨c, mem, new⟩ := ih later
    · exact (DocumentChange.mem_apply first old).imp_right fun new =>
        ⟨change, List.mem_cons_self, new⟩
    · exact .inr ⟨c, List.mem_cons_of_mem change mem, new⟩

theorem find?_writeDocuments (h : changes.foldlM DocumentChange.apply db = some db') {id : Uuid}
    (other : ∀ change ∈ changes, change.id ≠ id) :
    db'.documents.find? id = db.documents.find? id := by
  induction changes generalizing db with
  | nil =>
    cases h
    rfl
  | cons change rest ih =>
    rw [List.foldlM_cons] at h
    obtain ⟨middle, first, later⟩ := Option.bind_eq_some_iff.mp h
    obtain ⟨here, others⟩ := List.forall_mem_cons.mp other
    rw [ih later others, DocumentChange.find?_apply first here]

theorem writeDocuments_attributed (attributed : Attributed db)
    (h : changes.foldlM DocumentChange.apply db = some db') : Attributed db' := by
  induction changes generalizing db with
  | nil =>
    cases h
    exact attributed
  | cons change rest ih =>
    rw [List.foldlM_cons] at h
    obtain ⟨middle, first, later⟩ := Option.bind_eq_some_iff.mp h
    exact ih (DocumentChange.apply_attributed attributed first) later

end

/-! ## Moves -/

theorem usage_moveCounter_of_ne {increment : Increment} {db db' : Db} {ownerId : String}
    {tenantId : Option Uuid} {b n : Int} {c : Counter}
    (h : db.moveCounter increment ownerId tenantId b n = some db')
    (other : counterOf ownerId tenantId ≠ c) : db'.usage c = db.usage c := by
  unfold Db.moveCounter at h
  split at h
  · cases h
    rfl
  · cases tenantId with
    | some t =>
      simp only [Db.incrementTenantStorage] at h
      split at h
      · cases h
      · cases h
        cases c with
        | personal u => rfl
        | tenant id =>
          have apart : id ≠ t := fun same => other (congrArg Counter.tenant same.symm)
          rw [Db.usage, Table.find?_update, if_neg apart, Db.usage]
    | none =>
      cases h
      cases c with
      | tenant id => rfl
      | personal u =>
        have apart : u ≠ ownerId := fun same => other (congrArg Counter.personal same.symm)
        simp [Db.usage, Db.incrementUserStorage, freeQuotaValues, Table.find?_upsert, apart]

theorem CounterMove.apply_usage {db db' : Db} {m : CounterMove} (h : m.apply db = some db')
    {c : Counter} (covered : 0 ≤ db.usage c + posted [m] c) :
    db'.usage c = db.usage c + posted [m] c := by
  by_cases here : m.counter = c
  · subst here
    have one : posted [m] m.counter = m.delta := by simp [posted, Ledger.charges_cons]
    rw [one] at covered ⊢
    rw [apply, moveCounter_clamped covered] at h
    rw [usage_moveCounter h]
    exact congrArg _ (if_pos rfl)
  · have none_posted : posted [m] c = 0 := by simp [posted, Ledger.charges_cons, here]
    rw [none_posted, add_zero]
    exact usage_moveCounter_of_ne h here

theorem posted_append (moves rest : List CounterMove) (c : Counter) :
    posted (moves ++ rest) c = posted moves c + posted rest c := by
  simp [posted, charges]

theorem moves_frame {moves : List CounterMove} {db db' : Db}
    (h : moves.foldlM CounterMove.apply db = some db') : CountersMoved db db' := by
  induction moves generalizing db with
  | nil =>
    cases h
    exact .refl _
  | cons m rest ih =>
    rw [List.foldlM_cons] at h
    obtain ⟨middle, first, later⟩ := Option.bind_eq_some_iff.mp h
    exact (moveCounter_frame first).trans (ih later)

/-- Moves that the counter covers add up. -/
theorem moves_usage {moves : List CounterMove} {db db' : Db}
    (h : moves.foldlM CounterMove.apply db = some db') {c : Counter}
    (covered : ∀ done, done <+: moves → 0 ≤ db.usage c + posted done c) :
    db'.usage c = db.usage c + posted moves c := by
  induction moves generalizing db with
  | nil =>
    cases h
    simp [posted]
  | cons m rest ih =>
    rw [List.foldlM_cons] at h
    obtain ⟨middle, first, later⟩ := Option.bind_eq_some_iff.mp h
    have moved : middle.usage c = db.usage c + posted [m] c :=
      m.apply_usage first (covered [m] (List.prefix_append [m] rest))
    have split (done : List CounterMove) :
        db.usage c + posted (m :: done) c = middle.usage c + posted done c := by
      rw [moved, add_assoc, ← posted_append]
      rfl
    rw [split]
    refine ih later fun done start => ?_
    rw [← split]
    exact covered (m :: done) ((List.prefix_cons_inj m).mpr start)

/-- Counters that are not named are not moved. -/
theorem moves_usage_of_not_mem {moves : List CounterMove} {db db' : Db}
    (h : moves.foldlM CounterMove.apply db = some db') {c : Counter}
    (other : ∀ m ∈ moves, m.counter ≠ c) : db'.usage c = db.usage c := by
  induction moves generalizing db with
  | nil =>
    cases h
    rfl
  | cons m rest ih =>
    rw [List.foldlM_cons] at h
    obtain ⟨middle, first, later⟩ := Option.bind_eq_some_iff.mp h
    rw [ih later fun x hx => other x (List.mem_cons_of_mem m hx)]
    exact usage_moveCounter_of_ne first (other m List.mem_cons_self)

/-! ## Counters that nothing concerns -/

theorem recorded_of_ne {db : Db} {c : Counter} (other : ∀ d ∈ db.documents.rows, d.counter ≠ c) :
    db.recorded c = 0 :=
  Ledger.charges_of_ne other StoredDocument.weight

theorem recorded_nonneg (db : Db) (c : Counter) : 0 ≤ db.recorded c :=
  Ledger.recorded_nonneg (fun d _ => weight_nonneg d) c

theorem posted_of_ne {moves : List CounterMove} {c : Counter} (other : c ∉ moves.map (·.counter)) :
    posted moves c = 0 :=
  Ledger.charges_of_ne (fun m hm same => other (List.mem_map.mpr ⟨m, hm, same⟩)) CounterMove.delta

def DocumentTransaction.concerned (t : DocumentTransaction) (db after : Db) : List Counter :=
  (db.documents.rows ++ after.documents.rows).map StoredDocument.counter ++
    t.moves.map CounterMove.counter

instance (t : DocumentTransaction) (db : Db) : Decidable (t.Matches db) :=
  decidable_of_iff
    ((∀ after ∈ t.writeDocuments db, ∀ c ∈ t.concerned db after,
        after.recorded c = db.recorded c + posted t.moves c) ∧
      ∀ done ∈ t.moves.inits, ∀ c ∈ t.moves.map CounterMove.counter,
        0 ≤ db.recorded c + posted done c) <| by
    constructor
    · rintro ⟨matched, covered⟩
      refine ⟨fun after written c => ?_, fun done start c => ?_⟩
      · by_cases mem : c ∈ t.concerned db after
        · exact matched after written c mem
        · simp only [DocumentTransaction.concerned, List.mem_append, List.map_append, not_or] at mem
          obtain ⟨⟨before, later⟩, unmoved⟩ := mem
          have none_there {db : Db} (unlisted : c ∉ db.documents.rows.map StoredDocument.counter) :
              db.recorded c = 0 :=
            recorded_of_ne fun d hd same => unlisted (List.mem_map.mpr ⟨d, hd, same⟩)
          rw [none_there before, none_there later, posted_of_ne unmoved, add_zero]
      · by_cases mem : c ∈ t.moves.map CounterMove.counter
        · exact covered done start c mem
        · have unmoved : c ∉ done.map CounterMove.counter := fun here =>
            mem ((((List.mem_inits done t.moves).mp start).map CounterMove.counter).subset here)
          rw [posted_of_ne unmoved, add_zero]
          exact recorded_nonneg db c
    · rintro ⟨matched, covered⟩
      exact ⟨fun after written c _ => matched after written c,
        fun done start c _ => covered done start c⟩

/-! ## Transactions -/

namespace DocumentTransaction

variable {t : DocumentTransaction} {db db' : Db}

theorem commit_spec (h : t.commit db = some db') : ∃ written, t.writeDocuments db = some written ∧
    DocumentsChanged db written ∧ CountersMoved written db' := by
  obtain ⟨written, changed, moved⟩ := Option.bind_eq_some_iff.mp h
  exact ⟨written, changed, writeDocuments_frame changed, moves_frame moved⟩

theorem commit_counts (h : t.commit db = some db') (c : Counter) : db'.Counts c ↔ db.Counts c := by
  obtain ⟨written, -, changed, moved⟩ := commit_spec h
  cases c with
  | personal userId => exact Iff.rfl
  | tenant id => rw [Db.Counts, moved.tenants, changed.tenants, Db.Counts]

theorem commit_attributed (attributed : Attributed db) (h : t.commit db = some db') :
    Attributed db' := by
  obtain ⟨written, changed, moved⟩ := Option.bind_eq_some_iff.mp h
  have frame := moves_frame moved
  intro d hd id hid
  rw [frame.tenants]
  rw [frame.documents] at hd
  exact writeDocuments_attributed attributed changed d hd id hid

theorem mem_commit (h : t.commit db = some db') {x : StoredDocument}
    (hx : x ∈ db'.documents.rows) :
    x ∈ db.documents.rows ∨ ∃ change ∈ t.changes, change.written = some x := by
  obtain ⟨written, changed, moved⟩ := Option.bind_eq_some_iff.mp h
  rw [(moves_frame moved).documents] at hx
  exact mem_writeDocuments changed hx

theorem find?_commit (h : t.commit db = some db') {id : Uuid}
    (other : ∀ change ∈ t.changes, change.id ≠ id) :
    db'.documents.find? id = db.documents.find? id := by
  obtain ⟨written, changed, moved⟩ := Option.bind_eq_some_iff.mp h
  rw [(moves_frame moved).documents]
  exact find?_writeDocuments changed other

/-- A counter that is the sum of its documents is so after a matching transaction. -/
theorem commit_exact (matching : t.Matches db) (h : t.commit db = some db') {c : Counter}
    (exact : db.usage c = db.recorded c) : db'.usage c = db'.recorded c := by
  obtain ⟨written, changed, moved⟩ := Option.bind_eq_some_iff.mp h
  have usage : written.usage c = db.recorded c := by
    rw [(writeDocuments_frame changed).usage, exact]
  have total := moves_usage moved (c := c) fun done start => by
    rw [usage]
    exact matching.covered done ((List.mem_inits done t.moves).mpr start) c
  rw [total, (moves_frame moved).recorded, usage, matching.matched written changed]

end DocumentTransaction

/-! ## The transactions of the endpoints -/

theorem moveCounter_withDocuments (db : Db) (documents : Documents) (ownerId : String)
    (tenantId : Option Uuid) (b n : Int) (increment : Increment) :
    Db.moveCounter increment { db with documents := documents } ownerId tenantId b n =
      (db.moveCounter increment ownerId tenantId b n).map
        fun moved => { moved with documents := documents } := by
  unfold Db.moveCounter
  split
  · rfl
  · cases tenantId with
    | none => rfl
    | some t =>
      simp only [Db.incrementTenantStorage]
      cases db.tenants.find? t <;> rfl

/-- A transaction with one change and one move does what the endpoint does, which moves first. -/
theorem commit_one {db : Db} {change : DocumentChange} {m : CounterMove} {now : Time}
    {documents : Documents} (applied : change.apply db = some { db with documents := documents }) :
    (DocumentTransaction.mk [change] [m] now).commit db =
      (m.apply db).map fun moved => { moved with documents := documents } := by
  simp only [DocumentTransaction.commit, DocumentTransaction.writeDocuments, List.foldlM_cons,
    List.foldlM_nil, applied, Option.bind_eq_bind, Option.bind_some, Option.pure_def,
    CounterMove.apply, moveCounter_withDocuments]
  cases db.moveCounter clampedIncrement m.ownerId m.tenantId m.delta.1 m.delta.2 <;> rfl

theorem insertDocument_moved {db moved : Db} (frame : CountersMoved db moved) (d : StoredDocument) :
    moved.insertDocument d =
      (db.insertDocument d).map fun inserted => { moved with documents := inserted.documents } := by
  simp only [Db.insertDocument, frame.folders, frame.tenants, frame.documents]
  split
  · cases db.documents.insert? d <;> rfl
  · rfl

namespace DocumentTransaction

variable (d : StoredDocument) (tenantId : Option Uuid) (now : Time)

/-- An upload and a duplicate. -/
def add : DocumentTransaction :=
  ⟨[.insert { d with quotaTenantId := tenantId }], [⟨d.ownerId, tenantId, (d.size, 1)⟩], now⟩

def trash : DocumentTransaction :=
  ⟨[.set { d with isDeleted := true, deletedAt := some now }],
    [⟨d.ownerId, d.quotaTenantId, -d.weight⟩], now⟩

def restore : DocumentTransaction :=
  ⟨[.set { d with isDeleted := false, deletedAt := none, quotaTenantId := tenantId }],
    [⟨d.ownerId, tenantId, (d.size, 1)⟩], now⟩

variable {db : Db}

theorem add_commit (limits : Option EffectiveLimits) : ∃ tenantId,
    (add d tenantId now).commit db =
      (db.adjustDocumentStorage clampedIncrement d d.size 1 limits).bind
        fun charged => charged.1.insertDocument charged.2 := by
  obtain ⟨tenantId, charge⟩ := adjust_charge db d d.size limits
  refine ⟨tenantId, ?_⟩
  rw [charge, Option.bind_map]
  cases inserted : db.insertDocument { d with quotaTenantId := tenantId } with
  | none =>
    have refused : (add d tenantId now).commit db = none := by
      simp [commit, writeDocuments, add, DocumentChange.apply, inserted]
    rw [refused]
    refine (Option.bind_eq_none_iff.mpr fun moved hm => ?_).symm
    rw [Function.comp, insertDocument_moved (moveCounter_frame hm), inserted]
    rfl
  | some after =>
    have applied : DocumentChange.apply db (.insert { d with quotaTenantId := tenantId }) =
        some { db with documents := after.documents } := by
      rw [DocumentChange.apply, inserted]
      simp only [Db.insertDocument, Option.ite_none_right_eq_some] at inserted
      obtain ⟨-, inserted⟩ := inserted
      obtain ⟨documents, -, rfl⟩ := Option.map_eq_some_iff.mp inserted
      rfl
    rw [add, commit_one applied, Option.map_eq_bind]
    refine Option.bind_congr fun moved hm => ?_
    rw [Function.comp, Function.comp, insertDocument_moved (moveCounter_frame hm), inserted]
    rfl

variable {d} in
theorem trash_commit (attributed : d.quotaTenantId.all fun t => (db.tenants.find? t).isSome) :
    (trash d now).commit db = db.trashDocument clampedIncrement d now := by
  have applied : DocumentChange.apply db
      (.set { d with isDeleted := true, deletedAt := some now }) =
      some { db with
        documents := (db.flush { d with isDeleted := true, deletedAt := some now }).documents } :=
    if_pos attributed
  rw [trash, commit_one applied]
  unfold Db.trashDocument Db.freeDocument
  cases deleted : d.isDeleted with
  | true =>
    rw [weight_trashed deleted]
    rfl
  | false =>
    rw [weight_active deleted, if_neg Bool.false_ne_true, adjust_move db d (by decide),
      Option.map_map]
    refine Option.map_congr fun moved hm => ?_
    simp only [Function.comp, Db.flush, ← (moveCounter_frame hm).documents]

theorem restore_commit (limits : Option EffectiveLimits) : ∃ tenantId,
    (restore d tenantId now).commit db =
      db.restoreDocument clampedIncrement d limits := by
  obtain ⟨tenantId, charge⟩ := adjust_charge db { d with isDeleted := false, deletedAt := none }
    d.size limits
  let active := { d with isDeleted := false, deletedAt := none, quotaTenantId := tenantId }
  have restored : db.restoreDocument clampedIncrement d limits =
      (db.moveCounter clampedIncrement d.ownerId tenantId d.size 1).map (·.flush active) := by
    change (db.adjustDocumentStorage clampedIncrement _ d.size 1 limits).map _ = _
    rw [charge, Option.map_map]
    rfl
  refine ⟨tenantId, ?_⟩
  rw [restored]
  by_cases attributed : (tenantId.all fun t => (db.tenants.find? t).isSome) = true
  · have applied : DocumentChange.apply db (.set active) =
        some { db with documents := (db.flush active).documents } := if_pos attributed
    rw [restore, commit_one applied]
    refine Option.map_congr fun moved hm => ?_
    simp only [Db.flush, ← (moveCounter_frame hm).documents]
  · have refused : (restore d tenantId now).commit db = none := by
      simp [commit, writeDocuments, restore, DocumentChange.apply, attributed]
    rw [refused]
    refine (Option.map_eq_none_iff.mpr (Option.eq_none_iff_forall_ne_some.mpr fun moved hm => ?_)).symm
    refine attributed ((Option.all_eq_true _ _).mpr fun t ht => ?_)
    rw [← (moveCounter_frame hm).tenants]
    exact moveCounter_attributed hm (by decide) t ht

/-! ## Their moves match -/

theorem posted_one (m : CounterMove) (c : Counter) :
    posted [m] c = if m.counter = c then m.delta else 0 := by
  simp [posted, Ledger.charges_cons]

theorem covered_of_one {db : Db} {m : CounterMove} (room : 0 ≤ db.recorded m.counter + m.delta) :
    ∀ done ∈ [m].inits, ∀ c, 0 ≤ db.recorded c + posted done c := by
  intro done start c
  obtain rfl | rfl : done = [] ∨ done = [m] := by simpa using start
  · rw [posted_of_ne (by simp), add_zero]
    exact recorded_nonneg db c
  · rw [posted_one]
    split
    · rename_i here
      rw [← here]
      exact room
    · rw [add_zero]
      exact recorded_nonneg db c

variable {d}

theorem size_nonneg (d : StoredDocument) : (0 : Usage) ≤ ((d.size : Int), (1 : Int)) :=
  ⟨Int.natCast_nonneg _, Int.one_nonneg⟩

theorem add_matches (active : d.isDeleted = false) : (add d tenantId now).Matches db := by
  refine ⟨fun after written c => ?_,
    covered_of_one (add_nonneg (recorded_nonneg db _) (size_nonneg d))⟩
  have inserted : db.insertDocument { d with quotaTenantId := tenantId } = some after := by
    simpa [writeDocuments, add, DocumentChange.apply] using written
  simp only [Db.insertDocument, Option.ite_none_right_eq_some] at inserted
  obtain ⟨-, inserted⟩ := inserted
  obtain ⟨documents, hdocuments, rfl⟩ := Option.map_eq_some_iff.mp inserted
  change Ledger.recorded documents StoredDocument.counter StoredDocument.weight c = _
  rw [Ledger.recorded_insert? hdocuments, weight_active (by exact active), add, posted_one]
  rfl

theorem set_recorded {old : StoredDocument} (found : db.documents.find? d.id = some old)
    {moves : List CounterMove} {after : Db}
    (written : writeDocuments ⟨[.set d], moves, now⟩ db = some after) :
    after.recorded =
      Ledger.post (Ledger.post db.recorded old.counter (-old.weight)) d.counter d.weight := by
  have applied : DocumentChange.apply db (.set d) = some after := by
    simpa [writeDocuments] using written
  obtain ⟨-, same⟩ := Option.ite_none_right_eq_some.mp applied
  cases same
  exact recorded_flush found

theorem trash_matches (found : db.documents.find? d.id = some d) : (trash d now).Matches db := by
  refine ⟨fun after written c => ?_, covered_of_one ?_⟩
  · have gone : ({ d with isDeleted := true, deletedAt := some now } : StoredDocument).weight = 0 :=
      weight_trashed rfl
    rw [set_recorded (d := { d with isDeleted := true, deletedAt := some now }) now found written,
      gone, Ledger.post_zero, trash, posted_one]
    rfl
  · exact sub_nonneg.mpr (weight_le_recorded (Table.find?_eq_some.mp found).1)

theorem restore_matches (found : db.documents.find? d.id = some d) (trashed : d.isDeleted = true) :
    (restore d tenantId now).Matches db := by
  refine ⟨fun after written c => ?_,
    covered_of_one (add_nonneg (recorded_nonneg db _) (size_nonneg d))⟩
  rw [set_recorded
    (d := { d with isDeleted := false, deletedAt := none, quotaTenantId := tenantId })
    now found written, weight_trashed trashed, neg_zero, Ledger.post_zero, weight_active rfl,
    restore, posted_one]
  rfl

end DocumentTransaction

/-- An active document of one page. -/
def noteRow (id : Uuid) (ownerId : String) (size : Nat) (quotaTenantId : Option Uuid) :
    StoredDocument where
  id := id
  name := "note"
  ownerId := ownerId
  folderId := none
  pageCount := 1
  currentVersion := 1
  fileSizeBytes := some size
  mimeType := some "application/pdf"
  originalFormat := none
  thumbnailPath := none
  isDeleted := false
  deletedAt := none
  quotaTenantId := quotaTenantId

end GigaPdf
