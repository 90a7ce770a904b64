import GigaPdf.Storage.Counters

/-!
# Counters are the sum of their documents

Every transaction keeps the counters balanced, and runs as it would without the clamp at
zero. Both are proved together, a transaction at a time: a balanced counter covers what a
transaction takes from it, so the clamp does nothing, and what the transaction posts to
the counter is what it changes in the sum of the documents.
-/

namespace GigaPdf

/-! ## Transactions that the clamp does not touch -/

/-- The transaction is the same with and without the clamp, and its result is good. -/
def Settles {β : Type} (good : β → Prop) (transaction : Increment → Option β) : Prop :=
  transaction clampedIncrement = transaction exactIncrement ∧
    ∀ x, transaction exactIncrement = some x → good x

section
variable {α β : Type} {good : β → Prop}

theorem Settles.none : Settles good fun _ => none := ⟨rfl, fun _ h => by cases h⟩

theorem Settles.some {x : β} (h : good x) : Settles good fun _ => some x :=
  ⟨rfl, fun _ hx => by cases hx; exact h⟩

theorem Settles.read {x : Option α} {rest : α → Increment → Option β}
    (h : ∀ a, x = Option.some a → Settles good (rest a)) :
    Settles good fun increment => x >>= fun a => rest a increment := by
  cases hx : x with
  | none => exact .none
  | some a => exact h a hx

theorem Settles.readMap {x : Option α} {f : α → Increment → β}
    (h : ∀ a, x = Option.some a → f a clampedIncrement = f a exactIncrement ∧
      good (f a exactIncrement)) :
    Settles good fun increment => x.map fun a => f a increment := by
  cases hx : x with
  | none => exact .none
  | some a =>
    obtain ⟨same, result⟩ := h a hx
    refine ⟨congrArg Option.some same, fun y hy => ?_⟩
    cases hy
    exact result

theorem Settles.bind {t : Increment → Option α} {rest : α → Increment → Option β}
    {mid : α → Prop} (ht : Settles mid t) (h : ∀ a, mid a → Settles good (rest a)) :
    Settles good fun increment => t increment >>= fun a => rest a increment := by
  have same := ht.1
  cases hx : t exactIncrement with
  | none =>
    rw [hx] at same
    exact ⟨by simp only [same, hx]; rfl, fun x => by simp [hx]⟩
  | some a =>
    rw [hx] at same
    obtain ⟨eq, result⟩ := h a (ht.2 a hx)
    refine ⟨?_, fun x => ?_⟩
    · simp only [same, hx]
      exact eq
    · simp only [hx]
      exact result x

theorem Settles.map {t : Increment → Option α} {f : α → β} {mid : α → Prop}
    (ht : Settles mid t) (h : ∀ a, mid a → good (f a)) :
    Settles good fun increment => (t increment).map f := by
  refine ⟨congrArg (Option.map f) ht.1, fun x hx => ?_⟩
  obtain ⟨a, ha, rfl⟩ := Option.map_eq_some_iff.mp hx
  exact h a (ht.2 a ha)

theorem Settles.ite {c : Prop} [Decidable c] {s t : Increment → Option β}
    (hs : c → Settles good s) (ht : ¬ c → Settles good t) :
    Settles good fun increment => if c then s increment else t increment := by
  by_cases h : c
  · simpa only [if_pos h] using hs h
  · simpa only [if_neg h] using ht h

theorem Settles.weaken {mid : β → Prop} {t : Increment → Option β} (h : Settles mid t)
    (weaker : ∀ x, mid x → good x) : Settles good t :=
  ⟨h.1, fun x hx => weaker x (h.2 x hx)⟩

end

/-! ## Moves -/

/-- A transaction has moved counters only, to these values. -/
structure Moved (db : Db) (usage : Counter → Usage) (db' : Db) : Prop where
  frame : CountersMoved db db'
  usage : db'.usage = usage

theorem moveCounter_settles {db : Db} {ownerId : String} {tenantId : Option Uuid} {b n : Int}
    (h : 0 ≤ db.usage (counterOf ownerId tenantId) + (b, n)) :
    Settles (Moved db (Ledger.post db.usage (counterOf ownerId tenantId) (b, n)))
      fun increment => db.moveCounter increment ownerId tenantId b n :=
  ⟨moveCounter_clamped h, fun _ hx => ⟨moveCounter_frame hx, usage_moveCounter hx⟩⟩

theorem usage_add_nonneg {db : Db} (hb : Balanced db) (c : Counter) {w : Usage} (hw : 0 ≤ w) :
    0 ≤ db.usage c + w :=
  add_nonneg (hb.usage_nonneg c) hw

/-- Freeing an active document takes its weight off its counter. -/
theorem freeDocument_settles {db : Db} (hb : Balanced db) {d : StoredDocument}
    (hd : d ∈ db.documents.rows) :
    Settles (fun r => r.2 = d ∧ Moved db (Ledger.post db.usage d.counter (-d.weight)) r.1)
      fun increment => db.freeDocument increment d := by
  unfold Db.freeDocument
  refine .ite (fun trashed => ?_) (fun active => ?_)
  · refine .some ⟨rfl, .refl db, ?_⟩
    rw [weight_trashed trashed, neg_zero, Ledger.post_zero]
  · have weight := weight_active (d := d) (by simpa using active)
    simp only [adjust_move db d (show (-1 : Int) ≤ 0 by decide)]
    have covered : 0 ≤ db.usage d.counter + (-(d.size : Int), (-1 : Int)) := by
      have := hb.weight_le hd
      rw [weight] at this
      exact sub_nonneg.mpr this
    refine (moveCounter_settles covered).map fun db' moved => ⟨rfl, ?_⟩
    rw [weight]
    exact moved

/-! ## Rows -/

theorem recorded_flush {db : Db} {d old : StoredDocument}
    (h : db.documents.find? d.id = some old) :
    (db.flush d).recorded =
      Ledger.post (Ledger.post db.recorded old.counter (-old.weight)) d.counter d.weight := by
  have hid : old.id = d.id := (Table.find?_eq_some.mp h).2
  have := Ledger.recorded_update h (fun row => { d with id := row.id }) (fun _ => rfl)
    StoredDocument.counter StoredDocument.weight
  rw [show ({ d with id := old.id } : StoredDocument) = d by rw [hid]] at this
  exact this

theorem mem_flush {db : Db} {d x : StoredDocument} (h : x ∈ (db.flush d).documents.rows) :
    x = d ∨ x ∈ db.documents.rows := by
  simp only [Db.flush, Table.mem_update] at h
  obtain ⟨row, hrow, rfl⟩ := h
  by_cases hk : row.id = d.id
  · left; simp [hk]
  · right; simpa [hk] using hrow

/-- A document whose row and counters moved together leaves the counters balanced. -/
theorem Balanced.flush {db db' : Db} (hb : Balanced db) {d old : StoredDocument}
    (hold : db.documents.find? d.id = some old)
    (moved : Moved db (Ledger.post (Ledger.post db.usage old.counter (-old.weight))
      d.counter d.weight) db')
    (hquota : ∀ t, d.quotaTenantId = some t → (db'.tenants.find? t).isSome) :
    Balanced (db'.flush d) := by
  have hold' : db'.documents.find? d.id = some old := by rw [moved.frame.documents, hold]
  constructor
  · rw [recorded_flush hold', moved.frame.recorded, ← hb.exact]
    exact moved.usage
  · intro x hx t ht
    rcases mem_flush hx with rfl | hx
    · exact hquota t ht
    · rw [moved.frame.documents] at hx
      change (db'.tenants.find? t).isSome
      rw [moved.frame.tenants]
      exact hb.attributed x hx t ht

/-- A row whose counter and weight stay leaves the counters balanced. -/
theorem Balanced.flush_same {db : Db} (hb : Balanced db) {d old : StoredDocument}
    (hold : db.documents.find? d.id = some old) (hcounter : d.counter = old.counter)
    (hweight : d.weight = old.weight)
    (hquota : ∀ t, d.quotaTenantId = some t → (db.tenants.find? t).isSome) :
    Balanced (db.flush d) := by
  refine hb.flush hold ⟨.refl db, ?_⟩ hquota
  rw [hcounter, hweight, Ledger.post_post, neg_add_cancel, Ledger.post_zero]

theorem Balanced.insertDocument {db db' db'' : Db} (hb : Balanced db) {d : StoredDocument}
    (moved : Moved db (Ledger.post db.usage d.counter d.weight) db')
    (h : db'.insertDocument d = some db'') : Balanced db'' := by
  unfold Db.insertDocument at h
  split at h
  · rename_i fk
    obtain ⟨documents, hins, rfl⟩ := Option.map_eq_some_iff.mp h
    constructor
    · have := Ledger.recorded_insert? hins StoredDocument.counter StoredDocument.weight
      change db'.usage = Ledger.recorded documents _ _
      rw [this, moved.usage, hb.exact, ← moved.frame.recorded]
      rfl
    · intro x hx t ht
      rcases (Table.mem_insert? hins).mp hx with rfl | hx
      · simpa [ht] using fk.2
      · rw [moved.frame.documents] at hx
        change (db'.tenants.find? t).isSome
        rw [moved.frame.tenants]
        exact hb.attributed x hx t ht
  · cases h

/-- Versions, folders, memberships and plans count for nothing. -/
theorem Balanced.of_same {db db' : Db} (hb : Balanced db) (hd : db'.documents = db.documents)
    (hu : db'.users = db.users) (ht : db'.tenants = db.tenants) : Balanced db' := by
  constructor
  · have : db'.usage = db.usage := by
      funext c
      cases c <;> simp [Db.usage, hu, ht]
    rw [this, hb.exact]
    unfold Db.recorded
    rw [hd]
  · intro d hm t hq
    rw [hd] at hm
    rw [ht]
    exact hb.attributed d hm t hq

theorem Balanced.insertVersion {db db' : Db} (hb : Balanced db) {v : DocumentVersion}
    (h : db.insertVersion v = some db') : Balanced db' := by
  unfold Db.insertVersion at h
  split at h
  · obtain ⟨versions, _, rfl⟩ := Option.map_eq_some_iff.mp h
    exact hb.of_same rfl rfl rfl
  · cases h

/-! ## Transactions of one document -/

theorem adjust_charge_settles {db : Db} (hb : Balanced db) (d : StoredDocument)
    (limits : Option EffectiveLimits) :
    Settles
      (fun r => (∃ t, r.2 = { d with quotaTenantId := t }) ∧
        (∀ t, r.2.quotaTenantId = some t → (r.1.tenants.find? t).isSome) ∧
        Moved db (Ledger.post db.usage r.2.counter (d.size, 1)) r.1)
      fun increment => db.adjustDocumentStorage increment d d.size 1 limits := by
  obtain ⟨tenantId, charge⟩ := adjust_charge db d d.size limits
  simp only [charge]
  have covered := usage_add_nonneg hb (counterOf d.ownerId tenantId)
    (w := ((d.size : Int), (1 : Int))) ⟨Int.natCast_nonneg _, Int.one_nonneg⟩
  obtain ⟨same, result⟩ := moveCounter_settles covered
  refine ⟨congrArg _ same, fun r hr => ?_⟩
  obtain ⟨db', hmove, rfl⟩ := Option.map_eq_some_iff.mp hr
  exact ⟨⟨tenantId, rfl⟩, moveCounter_attributed hmove (by decide), result db' hmove⟩

theorem addDocument_settles {db : Db} (hb : Balanced db) {d : StoredDocument}
    (active : d.isDeleted = false) (version : DocumentVersion) (limits : EffectiveLimits) :
    Settles Balanced fun increment => db.addDocument increment d version limits := by
  unfold Db.addDocument
  refine (adjust_charge_settles hb d (some limits)).bind fun r hr => ?_
  obtain ⟨db', d'⟩ := r
  obtain ⟨⟨t, rfl⟩, -, moved⟩ := hr
  refine .read fun db'' hinsert => ?_
  have weight : ((d.size : Int), (1 : Int)) =
      ({ d with quotaTenantId := t } : StoredDocument).weight :=
    (weight_active (d := { d with quotaTenantId := t }) active).symm
  rw [weight] at moved
  have balanced := hb.insertDocument moved hinsert
  exact ⟨rfl, fun x hx => balanced.insertVersion hx⟩

theorem resizeStoredDocument_settles {db : Db} (hb : Balanced db) {d old : StoredDocument}
    (hold : db.documents.find? d.id = some old) (hcounter : d.counter = old.counter)
    (hsize : d.size = old.size) (hactive : d.isDeleted = old.isDeleted) (newSize : Nat) :
    Settles
      (fun r => r.2 = { d with fileSizeBytes := some newSize } ∧
        Moved db (Ledger.post (Ledger.post db.usage old.counter (-old.weight))
          r.2.counter r.2.weight) r.1)
      fun increment => db.resizeStoredDocument increment d newSize := by
  unfold Db.resizeStoredDocument
  have hcounter' : ({ d with fileSizeBytes := some newSize } : StoredDocument).counter =
      old.counter := hcounter
  refine .ite (fun trashed => ?_) (fun active => ?_)
  · refine .some ⟨rfl, .refl db, ?_⟩
    rw [hcounter', weight_trashed (d := old) (hactive ▸ trashed), weight_trashed trashed, neg_zero,
      Ledger.post_zero, Ledger.post_zero]
  · have active : d.isDeleted = false := by simpa using active
    have hnew := weight_active (d := { d with fileSizeBytes := some newSize }) active
    have hwas := weight_active (d := old) (hactive ▸ active)
    have difference : ((newSize : Int) - d.size, (0 : Int)) =
        -((old.size : Int), (1 : Int)) + ((newSize : Int), (1 : Int)) := by
      rw [hsize]
      ext <;> simp
      omega
    simp only [adjust_move db _ (show (0 : Int) ≤ 0 by decide)]
    have covered : 0 ≤ db.usage old.counter + ((newSize : Int) - d.size, (0 : Int)) := by
      have held := hb.weight_le (Table.find?_eq_some.mp hold).1
      rw [hwas] at held
      rw [difference, ← add_assoc, ← sub_eq_add_neg]
      exact add_nonneg (sub_nonneg.mpr held) ⟨Int.natCast_nonneg _, Int.one_nonneg⟩
    rw [← hcounter'] at covered
    refine (moveCounter_settles covered).map fun db' moved => ⟨rfl, moved.frame, ?_⟩
    rw [moved.usage, hnew, hwas, ← hcounter', Ledger.post_post]
    exact congrArg _ difference

theorem addVersion_settles {db : Db} (hb : Balanced db) {d : StoredDocument}
    (hd : db.documents.find? d.id = some d) (version : DocumentVersion) (pageCount : Nat) :
    Settles Balanced fun increment => db.addVersion increment d version pageCount := by
  unfold Db.addVersion
  refine .read fun db₁ hinsert => ?_
  have hb₁ := hb.insertVersion hinsert
  have hdocuments : db₁.documents = db.documents := by
    unfold Db.insertVersion at hinsert
    split at hinsert
    · obtain ⟨_, _, rfl⟩ := Option.map_eq_some_iff.mp hinsert
      rfl
    · cases hinsert
  have hd₁ : db₁.documents.find? d.id = some d := by rw [hdocuments, hd]
  refine (resizeStoredDocument_settles hb₁
    (d := { d with currentVersion := version.versionNumber, pageCount := pageCount })
    hd₁ rfl rfl rfl version.fileSizeBytes).bind fun r hr => ?_
  obtain ⟨db', d'⟩ := r
  obtain ⟨rfl, moved⟩ := hr
  refine .some (hb₁.flush hd₁ moved fun t ht => ?_)
  rw [moved.frame.tenants]
  exact hb₁.attributed d (Table.find?_eq_some.mp hd₁).1 t ht

theorem trashDocument_settles {db : Db} (hb : Balanced db) {d : StoredDocument}
    (hd : db.documents.find? d.id = some d) (now : Time) :
    Settles Balanced fun increment => db.trashDocument increment d now := by
  have hrow := (Table.find?_eq_some.mp hd).1
  refine (freeDocument_settles hb hrow).map fun r hr => ?_
  obtain ⟨db', d'⟩ := r
  obtain ⟨rfl, moved⟩ := hr
  refine hb.flush hd ⟨moved.frame, ?_⟩ ?_
  · rw [moved.usage, weight_trashed (d := { d' with isDeleted := true, deletedAt := some now }) rfl,
      Ledger.post_zero]
  · intro t ht
    rw [moved.frame.tenants]
    exact hb.attributed d' hrow t ht

theorem restoreDocument_settles {db : Db} (hb : Balanced db) {d : StoredDocument}
    (hd : db.documents.find? d.id = some d) (trashed : d.isDeleted = true)
    (limits : Option EffectiveLimits) :
    Settles Balanced fun increment => db.restoreDocument increment d limits := by
  refine (adjust_charge_settles hb { d with isDeleted := false, deletedAt := none } limits).map
    fun r hr => ?_
  obtain ⟨db', d'⟩ := r
  obtain ⟨⟨t, rfl⟩, attributed, moved⟩ := hr
  refine hb.flush hd ⟨moved.frame, ?_⟩ attributed
  rw [moved.usage, weight_trashed trashed, neg_zero, Ledger.post_zero]
  rfl

/-- The rows of an uploaded object land, or nothing but the object is touched. -/
theorem rowsForUploadedObject_settles {w : World} (hb : Balanced w.db) (key : Key)
    {rows : Increment → Db → Option Db} (h : Settles Balanced fun increment => rows increment w.db) :
    w.rowsForUploadedObject key (rows clampedIncrement) =
        w.rowsForUploadedObject key (rows exactIncrement) ∧
      Balanced (w.rowsForUploadedObject key (rows exactIncrement)).db := by
  obtain ⟨same, result⟩ := h
  simp only at same result
  unfold World.rowsForUploadedObject
  rw [same]
  refine ⟨rfl, ?_⟩
  split
  · rename_i db hdb
    exact result db hdb
  · exact hb

theorem hardDelete_settles {w : World} (hb : Balanced w.db) {d : StoredDocument}
    (hd : d ∈ w.db.documents.rows) :
    Settles (fun w' : World => Balanced w'.db) fun increment => w.hardDelete increment d := by
  refine (freeDocument_settles hb hd).map fun r hr => ?_
  obtain ⟨db', d'⟩ := r
  obtain ⟨rfl, moved⟩ := hr
  have hd' : d' ∈ db'.documents.rows := by rw [moved.frame.documents]; exact hd
  constructor
  · have := Ledger.recorded_delete hd' (p := fun x => x.id ∈ [d'.id]) (by simp)
      StoredDocument.counter StoredDocument.weight
    change db'.usage = Ledger.recorded (db'.documents.deleteWhere _) _ _
    rw [this, moved.usage, hb.exact, ← moved.frame.recorded]
    rfl
  · intro x hx t ht
    have hx := (Table.mem_deleteWhere.mp hx).1
    rw [moved.frame.documents] at hx
    change (db'.tenants.find? t).isSome
    rw [moved.frame.tenants]
    exact hb.attributed x hx t ht

end GigaPdf
