import GigaPdf.Storage.AccountErasure

/-!
# What an erasure leaves

A first erasure leaves no row of the user. A second one then deletes nothing, and counts the rows
in which it still finds the user's id.
-/

namespace GigaPdf

open Substitution

/-! ## Tables without rows to change -/

section
variable {increment : Increment}

theorem cascadeFolders_nil (folders : List Folder) : cascadeFolders folders [] = [] := by
  refine Closure.grow_invariant (P := (· = [])) _ (fun ids none => ?_) rfl
  subst none
  simp [childFolders]

theorem Db.deleteDocuments_nil (db : Db) : db.deleteDocuments [] = db := by
  unfold Db.deleteDocuments
  rw [Table.deleteWhere_eq_self (fun _ _ => by simp), Table.deleteWhere_eq_self (fun _ _ => by simp)]

theorem Db.deleteFolders_nil (db : Db) : db.deleteFolders [] = db := by
  unfold Db.deleteFolders
  simp only [cascadeFolders_nil]
  rw [Table.deleteWhere_eq_self (fun _ _ => by simp), Table.updateWhere_eq_self (fun _ _ => by simp)]

theorem Db.anonymizeVersions_eq_self {db : Db} {userId : String}
    (none : ∀ v ∈ db.versions.rows, decide (v.createdBy = userId) = false) :
    db.anonymizeVersions userId = db :=
  congrArg (fun versions => { db with versions := versions })
    (Table.updateWhere_eq_self none (fun v => { v with createdBy := ERASED_USER }) fun _ => rfl)

theorem Db.deleteTenants_nil (db : Db) : db.deleteTenants [] = db := by
  unfold Db.deleteTenants
  rw [Table.deleteWhere_eq_self (fun _ _ => by simp)]
  simp

theorem Db.handOver_nil (db : Db) : db.handOverTenantDocuments increment [] = db := by
  have nobody (d : StoredDocument) : (d.quotaTenantId.any fun t => decide (t ∈ [])) = false := by
    cases d.quotaTenantId <;> simp
  unfold Db.handOverTenantDocuments
  simp only [nobody, Bool.false_and, List.filter_false]
  rw [Table.updateWhere_eq_self (fun _ _ => rfl)]
  rfl

/-- Handing over moves counters, and changes no owner. -/
theorem Db.handOver_rows (db : Db) (tenantIds : List Uuid) :
    (db.handOverTenantDocuments increment tenantIds).versions = db.versions ∧
      (db.handOverTenantDocuments increment tenantIds).folders = db.folders ∧
      ∀ d ∈ (db.handOverTenantDocuments increment tenantIds).documents.rows,
        ∃ row ∈ db.documents.rows, d.ownerId = row.ownerId := by
  have moved := @chargeOwners_frame increment (tallyDocuments (·.ownerId)
    (db.documents.rows.filter fun d => (d.quotaTenantId.any (· ∈ tenantIds)) && !d.isDeleted)) db
  refine ⟨moved.versions, moved.folders, fun d mem => ?_⟩
  obtain ⟨row, was, rfl⟩ := List.mem_map.mp mem
  refine ⟨row, moved.documents ▸ was, ?_⟩
  split <;> rfl

theorem Db.deleteFolders_owner (db : Db) (ids : List Uuid) {d : StoredDocument}
    (mem : d ∈ (db.deleteFolders ids).documents.rows) :
    ∃ row ∈ db.documents.rows, d.ownerId = row.ownerId := by
  obtain ⟨row, was, rfl⟩ := List.mem_map.mp mem
  refine ⟨row, was, ?_⟩
  split <;> rfl

theorem mem_cascadeFolders {folders : List Folder} {ids : List Uuid} {id : Uuid} (mem : id ∈ ids) :
    id ∈ cascadeFolders folders ids :=
  Closure.grow_invariant (P := fun ids => id ∈ ids) _
    (fun _ here => List.mem_append_left _ here) mem

/-- No document, folder or version is the user's. -/
structure Db.Disowned (userId : String) (db : Db) : Prop where
  documents : ∀ d ∈ db.documents.rows, d.ownerId ≠ userId
  folders : ∀ f ∈ db.folders.rows, f.ownerId ≠ userId
  versions : ∀ v ∈ db.versions.rows, v.createdBy ≠ userId

theorem Db.anonymizeVersions_other (db : Db) {userId : String} (other : userId ≠ ERASED_USER) :
    ∀ v ∈ (db.anonymizeVersions userId).versions.rows, v.createdBy ≠ userId := by
  intro v mem
  obtain ⟨row, _, rfl⟩ := List.mem_map.mp mem
  by_cases mine : row.createdBy = userId
  · rw [if_pos (decide_eq_true mine)]
    exact other.symm
  · rw [if_neg (by simpa using mine)]
    exact mine

/-- Without the user's documents and folders, and with the placeholder in the versions. -/
theorem Db.disowned_of_deletes (db : Db) {userId : String}
    (other : ∀ v ∈ db.versions.rows, v.createdBy ≠ userId) :
    ((db.deleteDocuments ((db.documents.rows.filter fun d => d.ownerId = userId).map (·.id))
      ).deleteFolders ((db.folders.rows.filter fun f => f.ownerId = userId).map (·.id))).Disowned
        userId where
  documents := by
    intro d mem
    obtain ⟨row, was, same⟩ := Db.deleteFolders_owner _ _ mem
    obtain ⟨was, kept⟩ := Table.mem_deleteWhere.mp was
    rw [same]
    intro mine
    refine of_decide_eq_false kept (List.mem_map.mpr ⟨row, ?_, rfl⟩)
    exact List.mem_filter.mpr ⟨was, decide_eq_true mine⟩
  folders := by
    intro f mem
    obtain ⟨was, kept⟩ := Table.mem_deleteWhere.mp mem
    intro mine
    refine of_decide_eq_false kept (mem_cascadeFolders (List.mem_map.mpr ⟨f, ?_, rfl⟩))
    exact List.mem_filter.mpr ⟨was, decide_eq_true mine⟩
  versions := fun v mem => other v (Table.mem_deleteWhere.mp mem).1

theorem Db.Disowned.setPlans {db : Db} {userId : String} (disowned : db.Disowned userId)
    (plans : Plans) : { db with plans := plans }.Disowned userId :=
  ⟨disowned.documents, disowned.folders, disowned.versions⟩

theorem Db.Disowned.handOver {db : Db} {userId : String} (disowned : db.Disowned userId)
    (tenantIds : List Uuid) :
    (db.handOverTenantDocuments increment tenantIds).Disowned userId := by
  obtain ⟨versions, folders, owners⟩ := @Db.handOver_rows increment db tenantIds
  refine ⟨fun d mem => ?_, folders ▸ disowned.folders, versions ▸ disowned.versions⟩
  obtain ⟨row, was, same⟩ := owners d mem
  rw [same]
  exact disowned.documents row was

theorem Db.releaseDocuments_nil (db : Db) : db.releaseDocuments increment [] = some db := rfl

end

namespace AccountDb

/-- The notifications that the erasure keeps: other users', but for the user's documents. -/
def survivingNotifications (a : AccountDb) (userId : String) : List ShareNotification :=
  let ids := (a.db.documents.rows.filter fun d => d.ownerId = userId).map (·.id)
  (a.notifications.filter fun n => n.userId ≠ userId).filter fun n => !n.documentId.any (· ∈ ids)

/-- The entries of the audit trail that it keeps, without their actor. -/
def survivingLogs (a : AccountDb) (userId : String) : List ActivityLog :=
  let ids := (a.db.documents.rows.filter fun d => d.ownerId = userId).map (·.id)
  ((a.logs.filter fun l => !l.documentId.any (· ∈ ids)).filter
    fun l => !l.personal userId).map (·.anonymize userId)

/-- No row is the user's. -/
structure Gone (userId : String) (a : AccountDb) : Prop where
  documents : ∀ d ∈ a.db.documents.rows, d.ownerId ≠ userId
  folders : ∀ f ∈ a.db.folders.rows, f.ownerId ≠ userId
  versions : ∀ v ∈ a.db.versions.rows, v.createdBy ≠ userId
  quotas : ∀ q ∈ a.db.users.rows, q.userId ≠ userId
  collaborationSessions : ∀ r ∈ a.collaborationSessions, r.userId ≠ userId
  elementLocks : ∀ r ∈ a.elementLocks, r.userId ≠ userId
  asyncJobs : ∀ r ∈ a.asyncJobs, r.userId ≠ userId
  apiKeys : ∀ owner ∈ a.apiKeys, owner ≠ userId
  notifications : ∀ n ∈ a.notifications, n.userId ≠ userId
  shares : ∀ s ∈ a.shares.rows,
    s.sharedWithUserId ≠ some userId ∧ s.createdBy ≠ userId ∧ s.revokedBy ≠ some userId
  invitations : ∀ i ∈ a.invitations.rows, i.inviterId ≠ userId ∧ i.inviteeUserId ≠ some userId
  logs : ∀ l ∈ a.logs, l.userId ≠ userId
  signatures : ∀ owner ∈ a.signatures, owner ≠ userId
  verification : ∀ v ∈ a.verification, v.value ≠ userId
  users : ∀ u ∈ a.users, u.id ≠ userId

end AccountDb

section
variable {fold : Char → Char}

theorem ShareNotification.scrub_userId (needles : List (List Char)) (n : ShareNotification) :
    (n.scrub fold needles).userId = n.userId := by
  unfold ShareNotification.scrub
  split <;> rfl

theorem ActivityLog.scrub_userId (needles : List (List Char)) (l : ActivityLog) :
    (l.scrub fold needles).userId = l.userId := by
  unfold ActivityLog.scrub
  split <;> rfl

theorem ShareNotification.scrub_others {userId : String} {rows : List ShareNotification}
    (others : ∀ n ∈ rows, n.userId ≠ userId) (needles : List (List Char)) :
    ∀ n ∈ rows.map (·.scrub fold needles), n.userId ≠ userId := by
  refine List.forall_mem_map.mpr fun n mem => ?_
  rw [ShareNotification.scrub_userId]
  exact others n mem

theorem ActivityLog.scrub_others {userId : String} {rows : List ActivityLog}
    (others : ∀ l ∈ rows, l.userId ≠ userId) (needles : List (List Char)) :
    ∀ l ∈ rows.map (·.scrub fold needles), l.userId ≠ userId := by
  refine List.forall_mem_map.mpr fun l mem => ?_
  rw [ActivityLog.scrub_userId]
  exact others l mem

theorem ShareNotification.scrub_id (needles : List (List Char)) (n : ShareNotification) :
    (n.scrub fold needles).id = n.id := by
  unfold ShareNotification.scrub
  split <;> rfl

theorem ActivityLog.scrub_id (needles : List (List Char)) (l : ActivityLog) :
    (l.scrub fold needles).id = l.id := by
  unfold ActivityLog.scrub
  split <;> rfl

theorem ShareNotification.quoted_scrub (needles : List (List Char)) (n : ShareNotification) :
    (n.scrub fold needles).quoted = n.quoted.scrubMentions fold needles := by
  unfold ShareNotification.scrub Quoted.scrubMentions
  split
  · unfold ShareNotification.quoted Quoted.scrub
    cases n.message <;> rfl
  · rfl

theorem ActivityLog.quoted_scrub (needles : List (List Char)) (l : ActivityLog) :
    (l.scrub fold needles).quoted = l.quoted.scrubMentions fold needles := by
  unfold ActivityLog.scrub Quoted.scrubMentions
  split <;> rfl

end

section
variable {α : Type*} {p : α → Bool} {l : List α}

theorem filter_not_eq_self (none : ∀ x ∈ l, p x = false) : (l.filter fun x => !p x) = l :=
  List.filter_eq_self.mpr fun x mem => by rw [none x mem]; rfl

theorem countP_eq_zero_of (none : ∀ x ∈ l, p x = false) : l.countP p = 0 :=
  List.countP_eq_zero.mpr fun x mem => by rw [none x mem]; exact Bool.false_ne_true

end

namespace AccountDb

section
variable {fold : Char → Char} {increment : Increment} {userId : String} {a : AccountDb}
variable (report : AccountErasureReport)

/-! ## The second erasure, statement by statement -/

theorem eraseActivity_gone (gone : a.Gone userId) : a.eraseActivity report userId [] =
    (a, report.addDeleted [("collaboration_sessions", 0), ("element_locks", 0), ("async_jobs", 0),
      ("api_keys", 0), ("share_notifications", 0)]) := by
  have untied {r : DocumentActivity} (other : r.userId ≠ userId) :
      (decide (r.userId = userId) || r.documentId.any fun d => decide (d ∈ [])) = false := by
    cases r.documentId <;> simp [other]
  have sessions := fun r mem => untied (gone.collaborationSessions r mem)
  have locks := fun r mem => untied (gone.elementLocks r mem)
  have jobs := fun r mem => untied (gone.asyncJobs r mem)
  have keys := fun owner mem => decide_eq_false (gone.apiKeys owner mem)
  have notes := fun n mem => decide_eq_false (gone.notifications n mem)
  unfold eraseActivity
  simp only [decide_not, filter_not_eq_self sessions, filter_not_eq_self locks,
    filter_not_eq_self jobs, filter_not_eq_self keys, filter_not_eq_self notes,
    countP_eq_zero_of sessions, countP_eq_zero_of locks, countP_eq_zero_of jobs,
    countP_eq_zero_of keys, countP_eq_zero_of notes]

theorem eraseAccess_gone (gone : a.Gone userId) :
    a.eraseAccess fold report ⟨userId, [], false⟩ =
      (a, report.addDeleted [("document_shares", 0), ("document_share_invitations", 0)]) := by
  have shares := fun s mem => decide_eq_false (gone.shares s mem).1
  have invitations : ∀ i ∈ a.invitations.rows, (decide (i.inviterId = userId) ||
      decide (i.inviteeUserId = some userId) ||
      decide (i.inviteeEmail.toList.map fold ∈ [])) = false := by
    intro i mem
    simp [(gone.invitations i mem).1, (gone.invitations i mem).2]
  unfold eraseAccess
  simp only [Table.deleteWhere_eq_self shares, Table.deleteWhere_eq_self invitations,
    countP_eq_zero_of shares, countP_eq_zero_of invitations]

theorem anonymizeFootprint_gone (gone : a.Gone userId) : a.anonymizeFootprint report userId =
    (a, report.addAnonymized [("document_versions", 0), ("document_shares", 0)]) := by
  have versions := fun v mem => decide_eq_false (gone.versions v mem)
  have created := fun s mem => decide_eq_false (gone.shares s mem).2.1
  have revoked := fun s mem => decide_eq_false (gone.shares s mem).2.2
  unfold anonymizeFootprint
  simp only [Db.anonymizeVersions_eq_self versions, Table.updateWhere_eq_self created,
    Table.updateWhere_eq_self revoked, countP_eq_zero_of versions, countP_eq_zero_of created,
    countP_eq_zero_of revoked]

theorem owned_nil (gone : a.Gone userId) :
    (a.db.documents.rows.filter fun d => d.ownerId = userId) = [] :=
  List.filter_eq_nil_iff.mpr fun d mem => by simpa using gone.documents d mem

theorem eraseDocuments_gone (gone : a.Gone userId) : a.eraseDocuments report userId =
    (a, report.addDeleted [("stored_documents", 0), ("folders", 0)]) := by
  have folders : (a.db.folders.rows.filter fun f => f.ownerId = userId) = [] :=
    List.filter_eq_nil_iff.mpr fun f mem => by simpa using gone.folders f mem
  have detached (d : Option Uuid) : (!d.any fun id => decide (id ∈ [])) = true := by
    cases d <;> simp
  unfold eraseDocuments
  simp only [owned_nil gone, folders, List.map_nil, Db.deleteDocuments_nil, Db.deleteFolders_nil,
    detached, List.filter_true, List.length_nil]
  rw [Table.deleteWhere_eq_self (fun _ _ => by simp),
    Table.deleteWhere_eq_self (fun _ _ => by simp)]
  simp

theorem eraseTrail_gone (gone : a.Gone userId) : a.eraseTrail report userId =
    (a, (report.addDeleted [("activity_logs", 0)]).addAnonymized [("activity_logs", 0)]) := by
  have personal : ∀ l ∈ a.logs, l.personal userId = false := by
    intro l mem
    simp [ActivityLog.personal, gone.logs l mem]
  have actor := fun l mem => decide_eq_false (gone.logs l mem)
  have same : a.logs.map (·.anonymize userId) = a.logs :=
    (List.map_congr_left fun l mem => if_neg (gone.logs l mem)).trans (List.map_id _)
  unfold eraseTrail
  simp only [filter_not_eq_self personal, countP_eq_zero_of personal, countP_eq_zero_of actor,
    same]

theorem eraseTenants_gone : a.eraseTenants fold report increment ⟨userId, [], false⟩ [] =
    (a, report.addDeleted [("tenants", 0), ("tenant_invitations", 0)]) := by
  have unlinked : ∀ p ∈ a.db.plans.rows,
      (p.linkedTenantId.any fun t => decide (t ∈ [])) = false := by
    intro p _
    cases p.linkedTenantId <;> simp
  unfold eraseTenants
  simp only [Table.updateWhere_eq_self unlinked, Db.handOver_nil, Db.deleteTenants_nil]
  simp

theorem eraseIdentity_gone (gone : a.Gone userId) :
    a.eraseIdentity fold report ⟨userId, [], false⟩ = (a, report.addDeleted
      [("user_quotas", 0), ("user_signatures", 0), ("verification", 0), ("users", 0)]) := by
  have quotas := fun q mem => decide_eq_false (gone.quotas q mem)
  have signatures := fun owner mem => decide_eq_false (gone.signatures owner mem)
  have verification : ∀ v ∈ a.verification,
      (decide (v.identifier.toList.map fold ∈ []) || decide (v.value = userId)) = false := by
    intro v mem
    simp [gone.verification v mem]
  have users := fun u mem => decide_eq_false (gone.users u mem)
  unfold eraseIdentity
  simp only [decide_not, Table.deleteWhere_eq_self quotas, filter_not_eq_self signatures,
    filter_not_eq_self verification, filter_not_eq_self users, countP_eq_zero_of quotas,
    countP_eq_zero_of signatures, countP_eq_zero_of verification, countP_eq_zero_of users]

theorem scrubMentions_gone (gone : a.Gone userId) (needles : List (List Char)) :
    (a.scrubMentions fold report needles).1.Gone userId :=
  { gone with
    notifications := ShareNotification.scrub_others gone.notifications needles
    logs := ActivityLog.scrub_others gone.logs needles }

/-! ## The second erasure -/

theorem loadIdentity_gone (gone : a.Gone userId) :
    a.loadIdentity fold userId = ⟨userId, [], false⟩ := by
  have users : (a.users.find? fun u => u.id = userId) = none :=
    List.find?_eq_none.mpr fun u mem => by simpa using gone.users u mem
  have quotas : a.db.users.find? userId = none := Table.find?_eq_none.mpr gone.quotas
  unfold loadIdentity
  rw [users, quotas]
  rfl

theorem planTenants_gone (gone : a.Gone userId) : a.db.planTenants userId = some [] := by
  unfold Db.planTenants
  rw [Table.find?_eq_none.mpr gone.quotas]
  rfl

theorem checkSubscription_gone (gone : a.Gone userId) :
    a.db.checkSubscription userId [] = true := by
  unfold Db.checkSubscription
  rw [Table.find?_eq_none.mpr gone.quotas]
  simp

/-- No object is under the user's prefixes. -/
def Cleared (userId : String) (objects : List Key) : Prop :=
  ∀ key ∈ objects, (storagePrefixes userId).any (hasPrefix key) = false

theorem sweepPrefixes_cleared (objects : List Key) :
    Cleared userId (sweepPrefixes objects userId).1 := by
  intro key mem
  simp only [sweepPrefixes, deleteUnder, storagePrefixes, List.foldl_cons, List.foldl_nil,
    List.mem_filter, Bool.not_eq_true'] at mem
  obtain ⟨⟨_, first⟩, second⟩ := mem
  simp only [storagePrefixes, List.any_cons, List.any_nil, first, second, Bool.or_self]

theorem sweepPrefixes_of_cleared {objects : List Key} (cleared : Cleared userId objects) :
    sweepPrefixes objects userId = (objects, 0) := by
  have none {start : String} (mem : start ∈ storagePrefixes userId) :
      ∀ key ∈ objects, hasPrefix key start = false := by
    intro key here
    exact Bool.eq_false_iff.mpr (List.any_eq_false.mp (cleared key here) start mem)
  have first := none List.mem_cons_self
  have second := none (List.mem_cons_of_mem _ List.mem_cons_self)
  simp only [sweepPrefixes, deleteUnder, storagePrefixes, List.foldl_cons, List.foldl_nil,
    filter_not_eq_self first, filter_not_eq_self second, countP_eq_zero_of first,
    countP_eq_zero_of second]

theorem deleteAllObjects_cleared {objects : List Key} (cleared : Cleared userId objects) :
    deleteAllObjects objects userId [] = (objects, 0) := by
  unfold deleteAllObjects
  simp [sweepPrefixes_of_cleared cleared]

theorem needles_gone : (⟨userId, [], false⟩ : Identity).needles = [userId.toList] := by
  simp [Identity.needles]

/-- A second erasure deletes nothing. It rewrites and counts the rows that still hold the id. -/
theorem eraseTables_of_gone (gone : a.Gone userId) {count : Nat} {again : AccountDb}
    {after : AccountErasureReport}
    (h : a.eraseTables fold ⟨count, [], []⟩ increment ⟨userId, [], false⟩ [] = (again, after)) :
    again.objects = a.objects ∧ after.storageObjectsDeleted = count ∧
      (∀ entry ∈ after.deleted, entry.2 = 0) ∧
      ((∀ entry ∈ after.anonymized, entry.2 = 0) ↔
        a.notifications.countP (fun n => n.quoted.Found fold [userId.toList]) +
          a.logs.countP (fun l => l.quoted.Found fold [userId.toList]) = 0) := by
  have memberships (b : AccountDb) (r : AccountErasureReport) :
      b.eraseMemberships r ⟨userId, [], false⟩ =
        (b, r.addDeleted [("tenant_documents", 0), ("tenant_members", 0)]) := rfl
  unfold eraseTables at h
  simp only [owned_nil gone, List.map_nil, eraseActivity_gone _ gone, eraseAccess_gone _ gone,
    anonymizeFootprint_gone _ gone, eraseDocuments_gone _ gone, eraseTrail_gone _ gone,
    needles_gone, eraseTenants_gone, memberships,
    eraseIdentity_gone _ (scrubMentions_gone _ gone _), Prod.mk.injEq] at h
  obtain ⟨rfl, rfl⟩ := h
  refine ⟨rfl, rfl, ?_, ?_⟩ <;>
    simp [scrubMentions, AccountErasureReport.addDeleted, AccountErasureReport.addAnonymized]

theorem erase_of_gone (gone : a.Gone userId) (cleared : Cleared userId a.objects)
    (valid : ¬(userId = "" ∨ '/' ∈ userId.toList ∨ userId = ERASED_USER)) :
    ∃ again after, a.erase fold increment userId = some (again, after) ∧
      (after.isNoop ↔ (∀ n ∈ a.notifications, ¬n.quoted.Found fold [userId.toList]) ∧
        ∀ l ∈ a.logs, ¬l.quoted.Found fold [userId.toList]) := by
  obtain ⟨⟨again, after⟩, erased⟩ : ∃ done, a.eraseTables fold ⟨0, [], []⟩ increment
      ⟨userId, [], false⟩ [] = done := ⟨_, rfl⟩
  obtain ⟨objects, count, deleted, anonymized⟩ := eraseTables_of_gone gone erased
  have recorded : a.db.collectDocumentObjectKeys [] = [] := by
    simp [Db.collectDocumentObjectKeys]
  have swept : sweepPrefixes again.objects userId = (again.objects, 0) :=
    sweepPrefixes_of_cleared (objects ▸ cleared)
  refine ⟨{ again with objects := again.objects },
    { after with storageObjectsDeleted := after.storageObjectsDeleted + 0 }, ?_, ?_⟩
  · unfold erase
    rw [if_neg valid, loadIdentity_gone gone, planTenants_gone gone]
    simp only [Option.bind_eq_bind, Option.bind_some, checkSubscription_gone gone, Bool.not_true,
      Bool.false_eq_true, if_false, owned_nil gone, recorded, deleteAllObjects_cleared cleared,
      eraseRows, List.filter_nil, Db.releaseDocuments_nil, erased, swept]
  · unfold AccountErasureReport.isNoop
    simp only [count, anonymized, Nat.add_eq_zero_iff, List.countP_eq_zero, decide_eq_true_eq,
      Nat.add_zero, true_and]
    exact and_iff_right deleted

/-! ## The first erasure -/

variable {report}

theorem survivingNotifications_other :
    ∀ n ∈ a.survivingNotifications userId, n.userId ≠ userId :=
  fun _ mem => of_decide_eq_true (List.mem_filter.mp (List.mem_filter.mp mem).1).2

theorem survivingLogs_other (other : userId ≠ ERASED_USER) :
    ∀ l ∈ a.survivingLogs userId, l.userId ≠ userId := by
  intro l mem
  obtain ⟨row, -, rfl⟩ := List.mem_map.mp mem
  unfold ActivityLog.anonymize
  split
  · exact other.symm
  · assumption

/-- The shares with the user go, and the others lose what the user has done to them. -/
theorem shares_other (other : userId ≠ ERASED_USER) (ids : List Uuid) :
    ∀ s ∈ ((((a.shares.deleteWhere fun s => s.sharedWithUserId = some userId).updateWhere
        (fun s => s.createdBy = userId) (fun s => { s with createdBy := ERASED_USER })
        fun _ => rfl).updateWhere (fun s => s.revokedBy = some userId)
        (fun s => { s with revokedBy := some ERASED_USER }) fun _ => rfl).deleteWhere
          fun s => s.documentId ∈ ids).rows,
      s.sharedWithUserId ≠ some userId ∧ s.createdBy ≠ userId ∧ s.revokedBy ≠ some userId := by
  intro s mem
  obtain ⟨created, touched, rfl⟩ := List.mem_map.mp (Table.mem_deleteWhere.mp mem).1
  obtain ⟨row, was, rfl⟩ := List.mem_map.mp touched
  have apart := of_decide_eq_false (Table.mem_deleteWhere.mp was).2
  split_ifs <;> simp_all [Ne.symm]

theorem invitations_other (emailed : ShareInvitation → Bool) (ids : List Uuid) :
    ∀ i ∈ ((a.invitations.deleteWhere fun i => decide (i.inviterId = userId) ||
        decide (i.inviteeUserId = some userId) || emailed i).deleteWhere
          fun i => i.documentId ∈ ids).rows,
      i.inviterId ≠ userId ∧ i.inviteeUserId ≠ some userId := by
  intro i mem
  have apart := (Table.mem_deleteWhere.mp (Table.mem_deleteWhere.mp mem).1).2
  simp only [Bool.or_eq_false_iff, decide_eq_false_iff_not] at apart
  exact apart.1

theorem untied_other (rows : List DocumentActivity) (ids : List Uuid) :
    ∀ r ∈ rows.filter fun r =>
      !(decide (r.userId = userId) || r.documentId.any fun d => decide (d ∈ ids)),
      r.userId ≠ userId := by
  intro r mem mine
  simpa [mine] using (List.mem_filter.mp mem).2

/-- After the statements no row is the user's. -/
theorem eraseTables_gone (identity : Identity) (tenantIds : List Uuid)
    (other : identity.userId ≠ ERASED_USER) :
    (a.eraseTables fold report increment identity tenantIds).1.Gone identity.userId := by
  obtain ⟨userId, emails, hasQuota⟩ := identity
  let ids := (a.db.documents.rows.filter fun d => d.ownerId = userId).map (·.id)
  let needles := Identity.needles ⟨userId, emails, hasQuota⟩
  have owned := fun plans => @Db.Disowned.handOver increment _ _ ((Db.disowned_of_deletes _
    (a.db.anonymizeVersions_other other)).setPlans plans) tenantIds
  have notifications : ∀ n ∈ (a.survivingNotifications userId).map (·.scrub fold needles),
      n.userId ≠ userId := ShareNotification.scrub_others survivingNotifications_other needles
  have logs : ∀ l ∈ (a.survivingLogs userId).map (·.scrub fold needles), l.userId ≠ userId :=
    ActivityLog.scrub_others (survivingLogs_other other) needles
  have kept {α : Type} (owner : α → String) (rows : List α) :
      ∀ x ∈ rows.filter fun x => decide (owner x ≠ userId), owner x ≠ userId :=
    fun x mem => of_decide_eq_true (List.mem_filter.mp mem).2
  have quotas (t : Users) : ∀ q ∈ (t.deleteWhere fun q => q.userId = userId).rows,
      q.userId ≠ userId := fun q mem => of_decide_eq_false (Table.mem_deleteWhere.mp mem).2
  have verification (emailed : Verification → Bool) : ∀ v ∈ a.verification.filter fun v =>
      !(emailed v || decide (v.value = userId)), v.value ≠ userId := by
    intro v mem mine
    simpa [mine] using (List.mem_filter.mp mem).2
  cases hasQuota <;> exact ⟨(owned _).documents, (owned _).folders, (owned _).versions, quotas _,
    untied_other _ ids, untied_other _ ids, untied_other _ ids, kept id a.apiKeys, notifications,
    shares_other other ids, invitations_other _ ids, logs, kept id a.signatures, verification _,
    kept AuthUser.id a.users⟩

theorem eraseTables_notifications (identity : Identity) (tenantIds : List Uuid) :
    (a.eraseTables fold report increment identity tenantIds).1.notifications =
      (a.survivingNotifications identity.userId).map (·.scrub fold identity.needles) := by
  obtain ⟨userId, emails, hasQuota⟩ := identity
  cases hasQuota <;> rfl

theorem eraseTables_logs (identity : Identity) (tenantIds : List Uuid) :
    (a.eraseTables fold report increment identity tenantIds).1.logs =
      (a.survivingLogs identity.userId).map (·.scrub fold identity.needles) := by
  obtain ⟨userId, emails, hasQuota⟩ := identity
  cases hasQuota <;> rfl

theorem needles_longestFirst (identity : Identity) :
    identity.needles.Pairwise fun s t => t.length ≤ s.length :=
  have : Std.Total fun s t : List Char => t.length ≤ s.length := ⟨fun _ _ => Nat.le_total _ _⟩
  have : IsTrans (List Char) fun s t => t.length ≤ s.length := ⟨fun _ _ _ h h' => h'.trans h⟩
  List.pairwise_insertionSort _ _

theorem mem_needles (identity : Identity) : identity.userId.toList ∈ identity.needles :=
  (List.mem_insertionSort _).mpr (List.mem_dedup.mpr List.mem_cons_self)

/-- What an erasure that has committed leaves. -/
theorem erase_spec {after : AccountDb} {report : AccountErasureReport}
    (h : a.erase fold increment userId = some (after, report)) :
    ¬(userId = "" ∨ '/' ∈ userId.toList ∨ userId = ERASED_USER) ∧ after.Gone userId ∧
      Cleared userId after.objects ∧
      after.notifications = (a.survivingNotifications userId).map
        (·.scrub fold (a.loadIdentity fold userId).needles) ∧
      after.logs = (a.survivingLogs userId).map
        (·.scrub fold (a.loadIdentity fold userId).needles) := by
  unfold erase at h
  obtain ⟨valid, h⟩ := Option.ite_none_left_eq_some.mp h
  obtain ⟨tenantIds, -, h⟩ := Option.bind_eq_some_iff.mp h
  obtain ⟨-, h⟩ := Option.ite_none_left_eq_some.mp h
  obtain ⟨⟨done, counted⟩, rows, h⟩ := Option.bind_eq_some_iff.mp h
  obtain ⟨db, released, tables⟩ := Option.bind_eq_some_iff.mp rows
  have documents := (releaseDocuments_frame released).documents
  obtain ⟨same, -⟩ := Prod.ext_iff.mp (Option.some.inj tables)
  dsimp only at same
  obtain ⟨rfl, rfl⟩ := Prod.mk.inj (Option.some.inj h)
  have other : userId ≠ ERASED_USER := fun placeholder => valid (.inr (.inr placeholder))
  refine ⟨valid, ?_, sweepPrefixes_cleared _, ?_, ?_⟩
  · have gone : done.Gone userId := by
      rw [← same]
      exact eraseTables_gone (a.loadIdentity fold userId) tenantIds other
    exact { gone with }
  · have kept := (congrArg notifications same).symm.trans
      (eraseTables_notifications (a.loadIdentity fold userId) tenantIds)
    rw [survivingNotifications, documents] at kept
    exact kept
  · have kept := (congrArg logs same).symm.trans
      (eraseTables_logs (a.loadIdentity fold userId) tenantIds)
    rw [survivingLogs, documents] at kept
    exact kept

end

/-! ## What the erasure promises -/

section
variable (fold : Char → Char) (increment : Increment)

/-- No row that is kept mentions the user, what did not mention the user is as it was, and an
erasure right after it has nothing to do. -/
structure Forgotten (a : AccountDb) (userId : String) (after : AccountDb) : Prop where
  notifications : ∀ n ∈ after.notifications,
    n.quoted.Forgets fold (a.loadIdentity fold userId).needles
  logs : ∀ l ∈ after.logs, l.quoted.Forgets fold (a.loadIdentity fold userId).needles
  keptNotifications : List.Forall₂ (fun n n' => n'.id = n.id ∧
    n.quoted.Keeps fold (a.loadIdentity fold userId).needles n'.quoted)
      (a.survivingNotifications userId) after.notifications
  keptLogs : List.Forall₂ (fun l l' => l'.id = l.id ∧
    l.quoted.Keeps fold (a.loadIdentity fold userId).needles l'.quoted)
      (a.survivingLogs userId) after.logs
  noop : ∃ again report, after.erase fold increment userId = some (again, report) ∧ report.isNoop

/-- The rows of one table after the update: clean, and lost to a search for the id. -/
theorem clean_iff {ρ : Type} {quoted : ρ → Quoted} {update : ρ → ρ} {needles : List (List Char)}
    {userId : List Char} (longestFirst : needles.Pairwise fun s t => t.length ≤ s.length)
    (mem : userId ∈ needles)
    (quoted_update : ∀ row, quoted (update row) = (quoted row).scrubMentions fold needles)
    (rows : List ρ) :
    ((∀ row ∈ rows.map update, (quoted row).Forgets fold needles) ∧
        ∀ row ∈ rows.map update, ¬(quoted row).Found fold [userId]) ↔
      ∀ row ∈ rows, (quoted row).Scrubbable fold needles userId := by
  simp only [List.forall_mem_map, quoted_update, ← forall_and,
    ← (quoted _).scrubMentions_iff longestFirst mem]

/-- What an update of one table keeps in each row. -/
theorem kept_rows {ρ : Type} {key : ρ → Uuid} {quoted : ρ → Quoted} {update : ρ → ρ}
    {needles : List (List Char)} (key_update : ∀ row, key (update row) = key row)
    (quoted_update : ∀ row, quoted (update row) = (quoted row).scrubMentions fold needles)
    (rows : List ρ) :
    List.Forall₂ (fun row row' => key row' = key row ∧
      (quoted row).Keeps fold needles (quoted row')) rows (rows.map update) := by
  rw [List.forall₂_map_right_iff]
  refine List.forall₂_same.mpr fun row _ => ⟨key_update row, ?_⟩
  rw [quoted_update]
  exact Quoted.keeps_scrubMentions fold needles (quoted row)

/-- The erasure keeps its promise exactly when every row that it keeps can be scrubbed clean. -/
theorem forgotten_iff {a after : AccountDb} {userId : String} {report : AccountErasureReport}
    (h : a.erase fold increment userId = some (after, report)) :
    Forgotten fold increment a userId after ↔
      (∀ n ∈ a.survivingNotifications userId,
        n.quoted.Scrubbable fold (a.loadIdentity fold userId).needles userId.toList) ∧
      ∀ l ∈ a.survivingLogs userId,
        l.quoted.Scrubbable fold (a.loadIdentity fold userId).needles userId.toList := by
  obtain ⟨valid, gone, cleared, notifications, logs⟩ := erase_spec h
  obtain ⟨again, second, erased, noop⟩ :=
    @erase_of_gone fold increment userId after gone cleared valid
  have idle : (∃ again report, after.erase fold increment userId = some (again, report) ∧
      report.isNoop) ↔ second.isNoop := by
    rw [erased]
    constructor
    · rintro ⟨_, _, same, nothing⟩
      obtain ⟨-, rfl⟩ := Prod.mk.inj (Option.some.inj same)
      exact nothing
    · exact fun nothing => ⟨again, second, rfl, nothing⟩
  have named : userId.toList ∈ (a.loadIdentity fold userId).needles := mem_needles _
  have clean := clean_iff fold (needles_longestFirst _) named (ShareNotification.quoted_scrub _)
    (a.survivingNotifications userId)
  have cleanLogs := clean_iff fold (needles_longestFirst _) named (ActivityLog.quoted_scrub _)
    (a.survivingLogs userId)
  rw [← notifications] at clean
  rw [← logs] at cleanLogs
  rw [← clean, ← cleanLogs]
  constructor
  · intro forgotten
    obtain ⟨lost, lostLogs⟩ := noop.mp (idle.mp forgotten.noop)
    exact ⟨⟨forgotten.notifications, lost⟩, forgotten.logs, lostLogs⟩
  · rintro ⟨⟨forgets, lost⟩, forgetsLogs, lostLogs⟩
    refine ⟨forgets, forgetsLogs, ?_, ?_, idle.mpr (noop.mpr ⟨lost, lostLogs⟩)⟩
    · rw [notifications]
      exact kept_rows fold (ShareNotification.scrub_id _) (ShareNotification.quoted_scrub _) _
    · rw [logs]
      exact kept_rows fold (ActivityLog.scrub_id _) (ActivityLog.quoted_scrub _) _

end

/-! ## A key that stays -/

/-- Bob's log has Ana's id as a key. -/
def permissionMap : AccountDb where
  db := .empty
  objects := []
  users := [⟨"ana", "ana@example.org"⟩]
  signatures := []
  verification := []
  apiKeys := []
  collaborationSessions := []
  elementLocks := []
  asyncJobs := []
  notifications := []
  shares := .empty
  invitations := .empty
  logs := [⟨uuid "log", none, "bob", none, none, none, none, none,
    let value := .object [("ana".toList, .string "edit".toList)]
    some ⟨value.dumps, value⟩⟩]
  tenantDocuments := []
  tenantInvitations := []

theorem key_not_forgotten : ∃ after report,
    permissionMap.erase Char.toLower clampedIncrement "ana" = some (after, report) ∧
      ¬Forgotten Char.toLower clampedIncrement permissionMap "ana" after ∧
      ∃ again second, after.erase Char.toLower clampedIncrement "ana" = some (again, second) ∧
        ("mentions", 1) ∈ second.anonymized := by
  have run : (permissionMap.erase Char.toLower clampedIncrement "ana").any (fun done =>
      decide (∃ l ∈ done.1.logs, ∃ key ∈ l.quoted.value.keys, Mentions Char.toLower
        (permissionMap.loadIdentity Char.toLower "ana").needles key) &&
      (done.1.erase Char.toLower clampedIncrement "ana").any fun again =>
        decide (("mentions", 1) ∈ again.2.anonymized)) = true := by
    decide +kernel
  obtain ⟨⟨after, report⟩, erased, both⟩ := (Option.any_eq_true _ _).mp run
  obtain ⟨kept, counted⟩ := Bool.and_eq_true_iff.mp both
  obtain ⟨l, mem, key, here, mentions⟩ := of_decide_eq_true kept
  obtain ⟨⟨again, second⟩, repeated, found⟩ := (Option.any_eq_true _ _).mp counted
  exact ⟨after, report, erased, fun forgotten => (forgotten.logs l mem).2.2 key here mentions,
    again, second, repeated, of_decide_eq_true found⟩

theorem forgotten_iff_permissionMap : ∃ after report,
    permissionMap.erase Char.toLower clampedIncrement "ana" = some (after, report) ∧
      (Forgotten Char.toLower clampedIncrement permissionMap "ana" after ↔
        (∀ n ∈ permissionMap.survivingNotifications "ana", n.quoted.Scrubbable Char.toLower
          (permissionMap.loadIdentity Char.toLower "ana").needles "ana".toList) ∧
        ∀ l ∈ permissionMap.survivingLogs "ana", l.quoted.Scrubbable Char.toLower
          (permissionMap.loadIdentity Char.toLower "ana").needles "ana".toList) := by
  have run : (permissionMap.erase Char.toLower clampedIncrement "ana").isSome = true := by
    decide +kernel
  obtain ⟨⟨after, report⟩, erased⟩ := Option.isSome_iff_exists.mp run
  exact ⟨after, report, erased, forgotten_iff Char.toLower clampedIncrement erased⟩

end AccountDb

end GigaPdf
