import GigaPdf.Storage.QuotaInvariant

/-!
# Transactions of many documents

The folder cascade, the trash purge and the account erasure keep the counters balanced.
-/

namespace GigaPdf

open Ledger (charges recorded)

abbrev documentCharges (documents : List StoredDocument) : Counter → Usage :=
  charges StoredDocument.counter StoredDocument.weight documents

/-! ## Bulk moves -/

/-- What the entries of a tally by owner and organization take from a counter. -/
abbrev takenFrom (freed : List ((String × Option Uuid) × Usage)) (c : Counter) : Usage :=
  Tally.held freed fun k => counterOf k.1 k.2 = c

theorem takenFrom_tally {documents : List StoredDocument}
    (active : ∀ d ∈ documents, d.isDeleted = false) (c : Counter) :
    takenFrom (tallyDocuments (fun d => (d.ownerId, d.quotaTenantId)) documents) c =
      documentCharges documents c := by
  unfold takenFrom tallyDocuments
  rw [Tally.held_tally]
  refine congrArg List.sum (List.map_congr_left fun d hd => ?_)
  rw [weight_active (active d hd)]
  rfl

theorem tallyDocuments_nonneg {κ : Type} [DecidableEq κ] (key : StoredDocument → κ)
    (documents : List StoredDocument) : ∀ e ∈ tallyDocuments key documents, (0 : Usage) ≤ e.2 :=
  Tally.forall_tally (P := fun v : Usage => 0 ≤ v) (fun _ _ hv hw => add_nonneg hv hw)
    fun _ _ => ⟨Int.natCast_nonneg _, Int.one_nonneg⟩

/-- Releasing entry after entry: every counter covers what the remaining entries take. -/
theorem release_settles (freed : List ((String × Option Uuid) × Usage))
    (nonneg : ∀ e ∈ freed, 0 ≤ e.2) (db : Db) (covered : ∀ c, takenFrom freed c ≤ db.usage c) :
    Settles (Moved db fun c => db.usage c - takenFrom freed c) fun increment =>
      freed.foldlM (fun db e => db.moveCounter increment e.1.1 e.1.2 (-e.2.1) (-e.2.2)) db := by
  induction freed generalizing db with
  | nil => exact .some ⟨.refl db, by funext c; simp [takenFrom, Tally.held_nil]⟩
  | cons e rest ih =>
    obtain ⟨he, hrest⟩ := List.forall_mem_cons.mp nonneg
    have rest_nonneg : ∀ c, 0 ≤ takenFrom rest c := fun c => List.sum_nonneg fun v hv => by
      obtain ⟨x, hx, rfl⟩ := List.mem_map.mp hv
      split
      · exact hrest x hx
      · exact le_rfl
    have first : 0 ≤ db.usage (counterOf e.1.1 e.1.2) + (-e.2.1, -e.2.2) := by
      have := covered (counterOf e.1.1 e.1.2)
      rw [takenFrom, Tally.held_cons, if_pos rfl] at this
      exact sub_nonneg.mpr ((le_add_of_nonneg_right (rest_nonneg _)).trans this)
    simp only [List.foldlM_cons]
    refine (moveCounter_settles first).bind fun db' moved => ?_
    have usage : ∀ c, db'.usage c =
        db.usage c - if counterOf e.1.1 e.1.2 = c then e.2 else 0 := by
      intro c
      rw [moved.usage, Ledger.post]
      split
      · exact (sub_eq_add_neg _ _).symm
      · rw [add_zero, sub_zero]
    refine (ih hrest db' fun c => ?_).weaken fun db'' moved' =>
      ⟨moved.frame.trans moved'.frame, ?_⟩
    · have := covered c
      rw [takenFrom, Tally.held_cons] at this
      rw [usage]
      exact le_sub_iff_add_le'.mpr this
    · funext c
      simp only [moved'.usage, usage, takenFrom, Tally.held_cons, sub_sub]

theorem releaseDocuments_settles {db : Db} {documents : List StoredDocument}
    (active : ∀ d ∈ documents, d.isDeleted = false)
    (covered : ∀ c, documentCharges documents c ≤ db.usage c) :
    Settles (Moved db fun c => db.usage c - documentCharges documents c) fun increment =>
      db.releaseDocuments increment documents := by
  have settles := release_settles (tallyDocuments (fun d => (d.ownerId, d.quotaTenantId)) documents)
    (tallyDocuments_nonneg _ _) db fun c => by rw [takenFrom_tally active]; exact covered c
  refine settles.weaken fun db' moved => ⟨moved.frame, ?_⟩
  funext c
  simp only [moved.usage, takenFrom_tally active]

/-- Charging owner after owner: nothing is taken, so every counter covers it. -/
theorem charge_owners (charged : List (String × Usage)) (nonneg : ∀ e ∈ charged, 0 ≤ e.2) (db : Db)
    (covered : ∀ c, 0 ≤ db.usage c) :
    charged.foldl (fun db e => db.incrementUserStorage clampedIncrement e.1 e.2.1 e.2.2) db =
        charged.foldl (fun db e => db.incrementUserStorage exactIncrement e.1 e.2.1 e.2.2) db ∧
      Moved db (fun c => db.usage c + Tally.held charged fun u => Counter.personal u = c)
        (charged.foldl (fun db e => db.incrementUserStorage exactIncrement e.1 e.2.1 e.2.2) db) := by
  induction charged generalizing db with
  | nil => exact ⟨rfl, .refl db, by funext c; simp [Tally.held_nil]⟩
  | cons e rest ih =>
    obtain ⟨he, hrest⟩ := List.forall_mem_cons.mp nonneg
    have first : db.incrementUserStorage clampedIncrement e.1 e.2.1 e.2.2 =
        db.incrementUserStorage exactIncrement e.1 e.2.1 e.2.2 :=
      incrementUserStorage_clamped (add_nonneg (covered _) he)
    have usage := usage_incrementUserStorage db e.1 e.2.1 e.2.2
    obtain ⟨same, moved⟩ := ih hrest (db.incrementUserStorage exactIncrement e.1 e.2.1 e.2.2)
      fun c => by
        rw [usage, Ledger.post]
        refine add_nonneg (covered c) ?_
        split
        · exact he
        · exact le_rfl
    simp only [List.foldl_cons, first]
    refine ⟨same, (incrementUserStorage_frame db _ _ _).trans moved.frame, ?_⟩
    funext c
    simp only [moved.usage, usage, Ledger.post, Tally.held_cons, add_assoc]

/-! ## Folders -/

theorem deleteFolders_balanced {db : Db} (hb : Balanced db) (ids : List Uuid) :
    Balanced (db.deleteFolders ids) := by
  constructor
  · refine Eq.trans hb.exact (Eq.symm ?_)
    exact Ledger.recorded_updateWhere_same db.documents _ _ (by exact fun _ => rfl)
      (fun _ => rfl) (fun _ => rfl)
  · intro d hd t ht
    obtain ⟨row, hrow, rfl⟩ := List.mem_map.mp hd
    refine hb.attributed row hrow t ?_
    split at ht <;> exact ht

theorem deleteFolder_settles {w : World} (hb : Balanced w.db) (userId : String) (folderId : Uuid)
    (cascade : Bool) (now : Time) :
    Settles (fun w' : World => Balanced w'.db) fun increment =>
      deleteFolder increment w userId folderId cascade now := by
  unfold deleteFolder
  refine .read fun subtree _ => ?_
  refine .ite (fun _ => .none) fun _ => ?_
  let inside (d : StoredDocument) : Bool := d.folderId.any (· ∈ subtree) && !d.isDeleted
  have active : ∀ d ∈ w.db.documents.rows.filter inside, d.isDeleted = false := by
    intro d hd
    simp only [inside, List.mem_filter, Bool.and_eq_true, Bool.not_eq_true'] at hd
    exact hd.2.2
  have released := @releaseDocuments_settles
    { w.db with
      documents := w.db.documents.updateWhere inside
        (fun d => { d with isDeleted := true, deletedAt := some now }) fun _ => rfl }
    _ active fun c => hb.charges_le inside c
  refine released.bind fun db moved => .some ?_
  refine deleteFolders_balanced ⟨?_, ?_⟩ _
  · funext c
    have trashed : charges StoredDocument.counter StoredDocument.weight
        ((w.db.documents.rows.filter inside).map
          fun d => { d with isDeleted := true, deletedAt := some now }) c = 0 :=
      Ledger.charges_eq_zero (fun r hr => by
        obtain ⟨d, _, rfl⟩ := List.mem_map.mp hr
        exact weight_trashed rfl) c
    have change := Ledger.recorded_updateWhere w.db.documents inside
      (fun d => { d with isDeleted := true, deletedAt := some now }) (fun _ => rfl)
      StoredDocument.counter StoredDocument.weight c
    calc db.usage c
        = w.db.usage c - documentCharges (w.db.documents.rows.filter inside) c :=
          congrFun moved.usage c
      _ = w.db.recorded c - documentCharges (w.db.documents.rows.filter inside) c := by
          rw [hb.exact]
      _ = db.recorded c := by
          rw [moved.frame.recorded]
          refine Eq.trans ?_ change.symm
          rw [trashed, add_zero]
          rfl
  · intro d hd t ht
    rw [moved.frame.documents] at hd
    obtain ⟨row, hrow, rfl⟩ := List.mem_map.mp hd
    rw [moved.frame.tenants]
    refine hb.attributed row hrow t ?_
    split at ht <;> exact ht

/-! ## The purge -/

theorem mem_purgeBatch {db : Db} {cutoff : Time} {ids : List Uuid}
    {documents : List StoredDocument} (h : db.purgeBatch cutoff ids = some documents)
    {d : StoredDocument} (hd : d ∈ documents) :
    d ∈ db.documents.rows ∧ expired cutoff d = true := by
  simp only [Db.purgeBatch, Option.ite_none_right_eq_some, Option.some.injEq] at h
  obtain ⟨-, rfl⟩ := h
  exact List.mem_filter.mp (List.mem_filter.mp hd).1

/-- Deleting documents that are all in the trash leaves the counters balanced. -/
theorem Balanced.deleteTrash {db : Db} (hb : Balanced db) (ids : List Uuid)
    (trashed : ∀ d ∈ db.documents.rows, d.id ∈ ids → d.isDeleted = true) :
    Balanced (db.deleteDocuments ids) := by
  constructor
  · funext c
    have none : charges StoredDocument.counter StoredDocument.weight
        (db.documents.rows.filter fun d => d.id ∈ ids) c = 0 :=
      Ledger.charges_eq_zero (fun d hd => by
        obtain ⟨hrow, hid⟩ := List.mem_filter.mp hd
        exact weight_trashed (trashed d hrow (of_decide_eq_true hid))) c
    have delete := Ledger.recorded_deleteWhere db.documents (fun d => d.id ∈ ids)
      StoredDocument.counter StoredDocument.weight c
    rw [none, sub_zero] at delete
    exact (congrFun hb.exact c).trans delete.symm
  · intro d hd t ht
    exact hb.attributed d (Table.mem_deleteWhere.mp hd).1 t ht

theorem purgeTrashedDocuments_balanced {w w' : World} (hb : Balanced w.db) {cutoff : Time}
    {ids : List Uuid} (h : purgeTrashedDocuments w cutoff ids = some w') : Balanced w'.db := by
  obtain ⟨documents, hbatch, rfl⟩ := Option.map_eq_some_iff.mp h
  refine hb.deleteTrash _ fun d hd hid => ?_
  obtain ⟨x, hx, hxid⟩ := List.mem_map.mp hid
  obtain ⟨hrow, hexpired⟩ := mem_purgeBatch hbatch hx
  rw [← w.db.documents.eq_of_key_eq hrow hd hxid]
  simp only [expired, Bool.and_eq_true] at hexpired
  exact hexpired.1

/-! ## Account erasure -/

/-- A counter of one of the organizations. -/
def Counter.isOneOf (tenantIds : List Uuid) : Counter → Prop
  | .personal _ => False
  | .tenant t => t ∈ tenantIds

instance (tenantIds : List Uuid) : DecidablePred (Counter.isOneOf tenantIds) := fun c => by
  cases c <;> unfold Counter.isOneOf <;> infer_instance

theorem usage_deleteTenants (db : Db) (tenantIds : List Uuid) (c : Counter) :
    (db.deleteTenants tenantIds).usage c = if c.isOneOf tenantIds then 0 else db.usage c := by
  cases c with
  | personal u => rfl
  | tenant t =>
    simp only [Db.usage, Db.deleteTenants, Table.find?_deleteWhere, Counter.isOneOf]
    cases ht : db.tenants.find? t with
    | none => exact (ite_self _).symm
    | some row =>
      have hid : row.id = t := (Table.find?_eq_some.mp ht).2
      by_cases hmem : t ∈ tenantIds <;> simp [Option.filter_some, hid, hmem]

/-- Documents that no organization holds are counted on their owners. -/
theorem charges_detached (rows : List StoredDocument) (c : Counter) :
    charges StoredDocument.counter StoredDocument.weight
        (rows.map fun d => { d with quotaTenantId := none }) c =
      charges (fun d => .personal d.ownerId) StoredDocument.weight rows c := by
  unfold charges
  rw [List.map_map]
  rfl

theorem held_charged {documents : List StoredDocument}
    (active : ∀ d ∈ documents, d.isDeleted = false) (c : Counter) :
    (Tally.held (tallyDocuments (·.ownerId) documents) fun u => Counter.personal u = c) =
      charges (fun d => Counter.personal d.ownerId) StoredDocument.weight documents c := by
  rw [tallyDocuments, Tally.held_tally]
  refine congrArg List.sum (List.map_congr_left fun d hd => ?_)
  rw [weight_active (active d hd)]

/-- The documents of the organizations, counted on their owners instead. -/
theorem charges_handedOver (rows : List StoredDocument) (held : StoredDocument → Bool)
    (c : Counter) :
    charges StoredDocument.counter StoredDocument.weight
        ((rows.filter held).map fun d => { d with quotaTenantId := none }) c =
      Tally.held (tallyDocuments (·.ownerId) (rows.filter fun d => held d && !d.isDeleted))
        fun u => Counter.personal u = c := by
  have active : charges (fun d => Counter.personal d.ownerId) StoredDocument.weight
        ((rows.filter held).filter fun d => !d.isDeleted) c =
      charges (fun d => .personal d.ownerId) StoredDocument.weight (rows.filter held) c :=
    Ledger.charges_filter (fun d _ hd => weight_trashed (by simpa using hd)) c
  have order : (rows.filter fun d => !d.isDeleted && held d) =
      rows.filter fun d => held d && !d.isDeleted :=
    List.filter_congr fun d _ => Bool.and_comm _ _
  rw [charges_detached, ← active, List.filter_filter, order, held_charged]
  intro d hd
  have both := (List.mem_filter.mp hd).2
  simp only [Bool.and_eq_true, Bool.not_eq_true'] at both
  exact both.2

theorem handOver_clamped {db : Db} (hb : Balanced db) (tenantIds : List Uuid) :
    db.handOverTenantDocuments clampedIncrement tenantIds =
      db.handOverTenantDocuments exactIncrement tenantIds := by
  unfold Db.handOverTenantDocuments
  simp only
  rw [(charge_owners _ (tallyDocuments_nonneg _ _) db hb.usage_nonneg).1]

/-- Organizations go once their documents are handed over: nothing is counted nowhere. -/
theorem handOver_balanced {db : Db} (hb : Balanced db) (tenantIds : List Uuid) :
    Balanced ((db.handOverTenantDocuments exactIncrement tenantIds).deleteTenants tenantIds) := by
  let held (d : StoredDocument) : Bool := d.quotaTenantId.any (· ∈ tenantIds)
  let detach (d : StoredDocument) : StoredDocument := { d with quotaTenantId := none }
  let charged := tallyDocuments (·.ownerId)
    (db.documents.rows.filter fun d => held d && !d.isDeleted)
  obtain ⟨-, moved⟩ := charge_owners charged (tallyDocuments_nonneg _ _) db hb.usage_nonneg
  let paid := charged.foldl (fun db e => db.incrementUserStorage exactIncrement e.1 e.2.1 e.2.2) db
  have documents : paid.documents = db.documents := moved.frame.documents
  constructor
  · funext c
    have total := Ledger.recorded_updateWhere paid.documents held detach (fun _ => rfl)
      StoredDocument.counter StoredDocument.weight c
    rw [usage_deleteTenants]
    by_cases hc : c.isOneOf tenantIds
    · rw [if_pos hc]
      refine (Ledger.charges_of_ne (fun d hd => ?_) StoredDocument.weight).symm
      obtain ⟨row, -, rfl⟩ := List.mem_map.mp hd
      rintro rfl
      by_cases hrow : held row = true
      · simp [held, StoredDocument.counter, counterOf, Counter.isOneOf, hrow] at hc
      · cases hq : row.quotaTenantId with
        | none => simp [StoredDocument.counter, counterOf, Counter.isOneOf, hq] at hc
        | some t =>
          have : t ∉ tenantIds := by simpa [held, hq] using hrow
          simp [StoredDocument.counter, counterOf, Counter.isOneOf, hq, this] at hc
    · have off : charges StoredDocument.counter StoredDocument.weight
          (paid.documents.rows.filter held) c = 0 := by
        refine Ledger.charges_of_ne (fun d hd => ?_) _
        rintro rfl
        obtain ⟨t, hq, ht⟩ := (Option.any_eq_true _ _).mp (List.mem_filter.mp hd).2
        exact hc (by simpa [StoredDocument.counter, counterOf, Counter.isOneOf, hq] using ht)
      rw [if_neg hc]
      refine Eq.trans ?_ total.symm
      rw [off, sub_zero, charges_handedOver, documents]
      refine (congrFun moved.usage c).trans ?_
      rw [hb.exact]
      rfl
  · intro d hd t ht
    obtain ⟨row, hrow, rfl⟩ := List.mem_map.mp hd
    change row ∈ paid.documents.rows at hrow
    rw [documents] at hrow
    by_cases hheld : held row = true
    · simp [held, hheld] at ht
    · have hq : row.quotaTenantId = some t := by simpa [held, hheld] using ht
      have hnot : t ∉ tenantIds := by simpa [held, hq] using hheld
      have exists_tenant : (paid.tenants.find? t).isSome := by
        rw [moved.frame.tenants]
        exact hb.attributed row hrow t hq
      change ((paid.tenants.deleteWhere _).find? t).isSome
      rw [Table.find?_deleteWhere]
      obtain ⟨tenant, htenant⟩ := Option.isSome_iff_exists.mp exists_tenant
      have hid : tenant.id = t := (Table.find?_eq_some.mp htenant).2
      simp [htenant, Option.filter_some, hid, hnot]

/-- No document of the user is left. -/
def Unowned (db : Db) (userId : String) : Prop := ∀ d ∈ db.documents.rows, d.ownerId ≠ userId

/-- An update that keeps the owners gives the user no document. -/
theorem unowned_update {rows : List StoredDocument} {userId : String}
    (h : ∀ d ∈ rows, d.ownerId ≠ userId) {p : StoredDocument → Bool}
    {change : StoredDocument → StoredDocument} (owner : ∀ d, (change d).ownerId = d.ownerId) :
    ∀ d ∈ rows.map fun r => if p r then change r else r, d.ownerId ≠ userId := by
  intro d hd
  obtain ⟨row, hrow, rfl⟩ := List.mem_map.mp hd
  by_cases hp : p row = true
  · simpa [hp, owner] using h row hrow
  · simpa [hp] using h row hrow

/-- A quota that counts nothing can go. -/
theorem Balanced.deleteQuota {db : Db} (hb : Balanced db) {userId : String}
    (h : Unowned db userId) :
    Balanced { db with users := db.users.deleteWhere fun q => q.userId = userId } := by
  constructor
  · funext c
    refine Eq.trans ?_ (congrFun hb.exact c)
    cases c with
    | tenant t => rfl
    | personal u =>
      simp only [Db.usage, Table.find?_deleteWhere]
      by_cases hu : u = userId
      · subst hu
        have none : db.usage (.personal u) = 0 := by
          rw [hb.exact]
          refine Ledger.charges_of_ne (fun d hd => ?_) _
          intro hc
          cases hq : d.quotaTenantId with
          | none => exact h d hd (by simpa [StoredDocument.counter, counterOf, hq] using hc)
          | some t => simp [StoredDocument.counter, counterOf, hq] at hc
        cases hrow : db.users.find? u with
        | none => rfl
        | some q =>
          have hid : q.userId = u := (Table.find?_eq_some.mp hrow).2
          simp only [Db.usage, hrow] at none
          simpa [Option.filter_some, hid] using none.symm
      · cases hrow : db.users.find? u with
        | none => rfl
        | some q =>
          have hid : q.userId = u := (Table.find?_eq_some.mp hrow).2
          simp [Option.filter_some, hid, hu]
  · exact hb.attributed

/-- The released documents of a user can go. -/
theorem deleteOwned_balanced {db db' : Db} (hb : Balanced db) (userId : String)
    (moved : Moved db
      (fun c => db.usage c - documentCharges
        ((db.documents.rows.filter fun d => d.ownerId = userId).filter fun d => !d.isDeleted) c)
      db') :
    let ids := (db.documents.rows.filter fun d => d.ownerId = userId).map (·.id)
    Balanced (db'.deleteDocuments ids) ∧ Unowned (db'.deleteDocuments ids) userId := by
  intro ids
  have owned : ∀ d ∈ db.documents.rows, d.id ∈ ids ↔ d.ownerId = userId := by
    intro d hd
    constructor
    · intro hid
      obtain ⟨x, hx, hxid⟩ := List.mem_map.mp hid
      obtain ⟨hxrow, hxowner⟩ := List.mem_filter.mp hx
      rw [← db.documents.eq_of_key_eq hxrow hd hxid]
      exact of_decide_eq_true hxowner
    · intro howner
      exact List.mem_map_of_mem (List.mem_filter.mpr ⟨hd, decide_eq_true howner⟩)
  have documents := moved.frame.documents
  refine ⟨⟨?_, ?_⟩, ?_⟩
  · funext c
    have active : Ledger.charges StoredDocument.counter StoredDocument.weight
          ((db.documents.rows.filter fun d => d.ownerId = userId).filter fun d => !d.isDeleted) c =
        Ledger.charges StoredDocument.counter StoredDocument.weight
          (db.documents.rows.filter fun d => d.ownerId = userId) c :=
      Ledger.charges_filter (fun d _ hd => weight_trashed (by simpa using hd)) c
    have delete := Ledger.recorded_deleteWhere db'.documents (fun d => d.id ∈ ids)
      StoredDocument.counter StoredDocument.weight c
    have selected : (db.documents.rows.filter fun d => d.id ∈ ids) =
        db.documents.rows.filter fun d => d.ownerId = userId :=
      List.filter_congr fun d hd => by simp [owned d hd]
    refine Eq.trans ?_ delete.symm
    rw [documents, selected]
    refine (congrFun moved.usage c).trans ?_
    rw [hb.exact]
    exact congrArg (_ - ·) active
  · intro d hd t ht
    have hd := (Table.mem_deleteWhere.mp hd).1
    rw [documents] at hd
    change (db'.tenants.find? t).isSome
    rw [moved.frame.tenants]
    exact hb.attributed d hd t ht
  · intro d hd howner
    obtain ⟨hd, hid⟩ := Table.mem_deleteWhere.mp hd
    rw [documents] at hd
    simp [(owned d hd).mpr howner] at hid

theorem eraseTenancy_settles {db : Db} (hb : Balanced db) {userId : String}
    (h : Unowned db userId) (tenantIds : List Uuid) :
    db.eraseTenancy clampedIncrement userId tenantIds =
        db.eraseTenancy exactIncrement userId tenantIds ∧
      Balanced (db.eraseTenancy exactIncrement userId tenantIds) ∧
      Unowned (db.eraseTenancy exactIncrement userId tenantIds) userId := by
  let planned : Db :=
    { db with
      plans := db.plans.updateWhere (fun p => p.linkedTenantId.any (· ∈ tenantIds))
        (fun p => { p with isActive := false }) fun _ => rfl }
  have hb' : Balanced planned := hb.of_same rfl rfl rfl
  have handed := handOver_balanced hb' tenantIds
  have documents := (charge_owners _ (tallyDocuments_nonneg (·.ownerId) (planned.documents.rows.filter
    fun d => d.quotaTenantId.any (· ∈ tenantIds) && !d.isDeleted)) planned
    hb'.usage_nonneg).2.frame.documents
  have unowned : Unowned
      ((planned.handOverTenantDocuments exactIncrement tenantIds).deleteTenants tenantIds)
      userId := by
    refine unowned_update ?_ fun _ => rfl
    intro d hd
    rw [documents] at hd
    exact h d hd
  refine ⟨?_, ?_, ?_⟩
  · unfold Db.eraseTenancy
    simp only
    rw [handOver_clamped hb']
  · unfold Db.eraseTenancy
    simp only
    split
    · exact handed
    · exact handed.of_same rfl rfl rfl
  · unfold Db.eraseTenancy
    simp only
    split <;> exact unowned

theorem eraseRows_settles {db : Db} (hb : Balanced db) (userId : String) (tenantIds : List Uuid) :
    Settles Balanced fun increment => db.eraseRows increment userId tenantIds := by
  unfold Db.eraseRows
  have active : ∀ d ∈ (db.documents.rows.filter fun d => d.ownerId = userId).filter
      fun d => !d.isDeleted, d.isDeleted = false := by
    intro d hd
    simpa using (List.mem_filter.mp hd).2
  have covered : ∀ c, documentCharges ((db.documents.rows.filter fun d => d.ownerId = userId).filter
      fun d => !d.isDeleted) c ≤ db.usage c := by
    intro c
    rw [List.filter_filter]
    exact hb.charges_le _ c
  refine (releaseDocuments_settles active covered).bind fun db' moved => ?_
  obtain ⟨balanced, unowned⟩ := deleteOwned_balanced hb userId moved
  let gone := db'.deleteDocuments
    ((db.documents.rows.filter fun d => d.ownerId = userId).map (·.id))
  have documentsGone : Balanced gone := balanced
  have foldersGone := deleteFolders_balanced documentsGone
    ((gone.folders.rows.filter fun f => f.ownerId = userId).map (·.id))
  obtain ⟨same, tenancyGone, unowned⟩ := eraseTenancy_settles foldersGone
    (unowned_update unowned fun _ => rfl) tenantIds
  let dropQuota (db : Db) : Db :=
    { db with users := db.users.deleteWhere fun q => q.userId = userId }
  refine ⟨congrArg (fun db => some (dropQuota db)) same, fun x hx => ?_⟩
  cases hx
  exact tenancyGone.deleteQuota unowned

theorem erase_settles {w : World} (hb : Balanced w.db) (userId : String) :
    Settles (fun w' : World => Balanced w'.db) fun increment => erase increment w userId := by
  unfold erase
  refine .ite (fun _ => .none) fun _ => ?_
  refine .read fun tenantIds _ => ?_
  refine .ite (fun _ => .none) fun _ => ?_
  exact (eraseRows_settles hb userId tenantIds).bind fun db balanced => .some balanced

end GigaPdf
