import GigaPdf.Storage.Frames
import GigaPdf.Storage.QuotaBulk

/-!
# Counters over whole runs

Every request keeps the counters balanced, and so does every run of requests.
-/

namespace GigaPdf

/-- The counters of a world are balanced. -/
abbrev BalancedWorld (w : World) : Prop := Balanced w.db

section
variable (services : Services) {w : World} (hb : Balanced w.db)
include hb

theorem uploadedDocument_settles (key : Key) (data : Bytes) {d : StoredDocument}
    (active : d.isDeleted = false) (version : DocumentVersion) (limits : EffectiveLimits) :
    let land (increment : Increment) := (w.uploadFile key data).rowsForUploadedObject key
      fun db => db.addDocument increment d version limits
    land clampedIncrement = land exactIncrement ∧ Balanced (land exactIncrement).db :=
  @rowsForUploadedObject_settles (w.uploadFile key data) hb key
    (fun increment db => db.addDocument increment d version limits)
    (addDocument_settles hb active version limits)

theorem saveDocument_settles (userId name : String) (file : UploadFile) (folderId : Option Uuid)
    (limits : EffectiveLimits) (id : Uuid) :
    Settles BalancedWorld fun increment =>
      saveDocument services increment w userId name file folderId limits id := by
  unfold saveDocument
  refine .ite (fun _ => .none) fun _ => ?_
  simp only
  split
  · exact .none
  · refine .ite (fun _ => .none) fun _ => ?_
    refine .readMap fun issued hissued => ?_
    have balanced : Balanced issued.db := by
      rw [(generateUuid_spec hissued).2]
      exact hb
    exact uploadedDocument_settles balanced _ _ (by rfl) _ _

theorem duplicate_settles (userId : String) (documentId : Uuid) (limits : EffectiveLimits)
    (id : Uuid) :
    Settles BalancedWorld fun increment =>
      duplicateStoredDocument services increment w userId documentId limits id := by
  unfold duplicateStoredDocument
  refine .read fun source _ => .read fun version _ => ?_
  refine .ite (fun _ => .none) fun _ => ?_
  refine .read fun copy _ => .read fun issued hissued => ?_
  have balanced : Balanced issued.db := by
    rw [(generateUuid_spec hissued).2]
    exact hb
  refine ⟨congrArg some (uploadedDocument_settles balanced _ _ (by rfl) _ _).1, fun x hx => ?_⟩
  cases hx
  exact (uploadedDocument_settles balanced _ _ (by rfl) _ _).2

theorem saveVersion_settles {d : StoredDocument} (hd : w.db.documents.find? d.id = some d)
    (data : Bytes) (pageCount : Nat) (createdBy : String) :
    Settles BalancedWorld fun increment =>
      some (w.saveVersion increment d data pageCount createdBy) := by
  let key := getDocumentKey d.ownerId d.id (d.currentVersion + 1)
  let version : DocumentVersion :=
    { documentId := d.id, versionNumber := d.currentVersion + 1, filePath := key
      fileSizeBytes := data.length, content := data, createdBy := createdBy, encryptionKey := none
      isEncrypted := false }
  obtain ⟨same, result⟩ := @rowsForUploadedObject_settles (w.uploadFile key data) hb key
    (fun increment db => db.addVersion increment d version pageCount)
    (addVersion_settles hb hd version pageCount)
  refine ⟨congrArg some same, fun x hx => ?_⟩
  cases hx
  exact result

theorem createVersion_settles (userId : String) (documentId : Uuid) (data : Bytes)
    (editGrant : Bool) :
    Settles BalancedWorld fun increment =>
      createVersion services increment w userId documentId data editGrant := by
  unfold createVersion
  refine .ite (fun _ => .none) fun _ => ?_
  refine .read fun pageCount _ => .read fun d hd => ?_
  refine .ite (fun _ => ?_) fun _ => .none
  exact saveVersion_settles hb (find?_filter hd).2.1 data pageCount userId

theorem restoreOriginal_settles (userId : String) (documentId : Uuid) :
    Settles BalancedWorld fun increment =>
      restoreOriginal services increment w userId documentId := by
  unfold restoreOriginal
  refine .read fun d hd => ?_
  refine .ite (fun _ => .some hb) fun _ => ?_
  refine .read fun original _ => ?_
  refine .ite (fun _ => .none) fun _ => ?_
  refine .read fun pageCount _ => ?_
  exact saveVersion_settles hb (find?_filter hd).2.1 original pageCount userId

/-- A document goes to the trash, or for good. -/
theorem removeDocument_settles {d : StoredDocument} (hd : w.db.documents.find? d.id = some d)
    (permanent : Bool) (now : Time) :
    Settles BalancedWorld fun increment =>
      if permanent then w.hardDelete increment d
      else (w.db.trashDocument increment d now).map fun db => { w with db := db } := by
  refine .ite (fun _ => ?_) fun _ => ?_
  · exact hardDelete_settles hb (Table.find?_eq_some.mp hd).1
  · exact (trashDocument_settles hb hd now).map fun db balanced => balanced

/-- A document leaves the trash. -/
theorem returnDocument_settles {d : StoredDocument} (hd : w.db.documents.find? d.id = some d)
    (trashed : d.isDeleted = true) (limits : Option EffectiveLimits) :
    Settles BalancedWorld fun increment =>
      (w.db.restoreDocument increment d limits).map fun db => { w with db := db } :=
  (restoreDocument_settles hb hd trashed limits).map fun _ balanced => balanced

/-- The rows of an active document are written without touching its counter or size. -/
theorem flush_balanced {d : StoredDocument} (hd : w.db.documents.find? d.id = some d)
    {d' : StoredDocument} (hid : d'.id = d.id) (hcounter : d'.counter = d.counter)
    (hweight : d'.weight = d.weight) (hquota : d'.quotaTenantId = d.quotaTenantId) :
    Balanced (w.db.flush d') :=
  hb.flush_same (hid ▸ hd) hcounter hweight fun t ht =>
    hb.attributed d (Table.find?_eq_some.mp hd).1 t (hquota ▸ ht)

theorem thumbnail_balanced {userId : String} {documentId : Uuid} {image : Bytes} {w' : World}
    (h : uploadDocumentThumbnail w userId documentId image = some w') : Balanced w'.db := by
  simp only [uploadDocumentThumbnail, Option.bind_eq_bind, Option.ite_none_left_eq_some,
    Option.bind_eq_some_iff, Option.some.injEq] at h
  obtain ⟨-, format, -, d, hd, rfl⟩ := h
  exact flush_balanced hb (find?_filter hd).2.1 rfl rfl rfl rfl

theorem moveDocument_balanced {userId : String} {documentId : Uuid} {folderId : Option Uuid}
    {w' : World} (h : moveDocument w userId documentId folderId = some w') : Balanced w'.db := by
  simp only [moveDocument, Option.bind_eq_bind, Option.bind_eq_some_iff, Option.some.injEq] at h
  obtain ⟨d, hd, -, -, rfl⟩ := h
  exact flush_balanced hb (find?_filter hd).2.1 rfl rfl rfl rfl

theorem createFolder_balanced {userId name : String} {parentId : Option Uuid} {id : Uuid}
    {w' : World} (h : createFolder w userId name parentId id = some w') : Balanced w'.db := by
  simp only [createFolder, World.generateUuid, Option.bind_eq_bind, Option.bind_eq_some_iff,
    Option.ite_none_left_eq_some, Option.some.injEq] at h
  obtain ⟨-, -, -, ⟨-, rfl⟩, folders, -, rfl⟩ := h
  exact hb.of_same rfl rfl rfl

theorem moveFolder_balanced {userId : String} {folderId : Uuid} {parentId : Option Uuid}
    {w' : World} (h : moveFolder w userId folderId parentId = some w') : Balanced w'.db := by
  simp only [moveFolder, Option.bind_eq_bind, Option.bind_eq_some_iff,
    Option.ite_none_left_eq_some, Option.some.injEq] at h
  obtain ⟨-, folder, -, parent, -, -, rfl⟩ := h
  exact hb.of_same rfl rfl rfl

end

/-! ## Accounts, organizations and plans -/

theorem usage_update_users {db : Db} {k : String} {change : UserQuota → UserQuota}
    {keeps : ∀ q, (change q).userId = q.userId}
    (bytes : ∀ q, (change q).storageUsedBytes = q.storageUsedBytes)
    (count : ∀ q, (change q).documentCount = q.documentCount) :
    ({ db with users := db.users.update k change keeps } : Db).usage = db.usage := by
  funext c
  cases c with
  | tenant t => rfl
  | personal u =>
    simp only [Db.usage, Table.find?_update]
    split
    · rename_i e
      subst e
      cases db.users.find? u <;> simp [bytes, count]
    · rfl

theorem usage_update_tenants {db : Db} {k : Uuid} {change : Tenant → Tenant}
    {keeps : ∀ t, (change t).id = t.id}
    (bytes : ∀ t, (change t).storageUsedBytes = t.storageUsedBytes)
    (count : ∀ t, (change t).documentCount = t.documentCount) :
    ({ db with tenants := db.tenants.update k change keeps } : Db).usage = db.usage := by
  funext c
  cases c with
  | personal u => rfl
  | tenant t =>
    simp only [Db.usage, Table.find?_update]
    split
    · rename_i e
      subst e
      cases db.tenants.find? t <;> simp [bytes, count]
    · rfl

theorem getOrCreateQuota_usage (db : Db) (userId : String) :
    (db.getOrCreateQuota userId).usage = db.usage := by
  unfold Db.getOrCreateQuota
  split
  · rename_i users hins
    funext c
    cases c with
    | tenant t => rfl
    | personal u =>
      have free := (Table.insert?_eq_some.mp hins).1
      simp only [Db.usage, Table.find?_insert? hins]
      split
      · rename_i e
        rw [show db.users.find? u = none from e ▸ free]
        rfl
      · rfl
  · rfl

theorem getOrCreateQuota_balanced {db : Db} (hb : Balanced db) (userId : String) :
    Balanced (db.getOrCreateQuota userId) := by
  have usage := getOrCreateQuota_usage db userId
  unfold Db.getOrCreateQuota at usage ⊢
  split at usage
  · exact ⟨usage.trans hb.exact, hb.attributed⟩
  · exact hb

theorem createTenant_balanced {db db' : Db} (hb : Balanced db) {tenant : Tenant}
    (h : db.createTenant tenant = some db') : Balanced db' := by
  obtain ⟨tenants, hins, rfl⟩ := Option.map_eq_some_iff.mp h
  have free := (Table.insert?_eq_some.mp hins).1
  refine ⟨?_, fun d hd t ht => ?_⟩
  · refine Eq.trans ?_ hb.exact
    funext c
    cases c with
    | personal u => rfl
    | tenant t =>
      simp only [Db.usage, Table.find?_insert? hins]
      split
      · rename_i e
        rw [show db.tenants.find? t = none from e ▸ free]
        rfl
      · rfl
  · change (tenants.find? t).isSome
    rw [Table.find?_insert? hins]
    split
    · rfl
    · exact hb.attributed d hd t ht

theorem setUserPlan_balanced {db : Db} (hb : Balanced db) (plan : UserQuota) :
    Balanced (db.setUserPlan plan) := by
  have usage : (db.setUserPlan plan).usage = db.usage := by
    unfold Db.setUserPlan
    exact usage_update_users (by intro; rfl) (by intro; rfl)
  exact ⟨usage.trans hb.exact, hb.attributed⟩

theorem setTenantPlan_balanced {db : Db} (hb : Balanced db) (plan : Tenant) :
    Balanced (db.setTenantPlan plan) := by
  have usage : (db.setTenantPlan plan).usage = db.usage := by
    unfold Db.setTenantPlan
    exact usage_update_tenants (by intro; rfl) (by intro; rfl)
  refine ⟨usage.trans hb.exact, fun d hd t ht => ?_⟩
  have := hb.attributed d hd t ht
  simp only [Db.setTenantPlan, Table.find?_update]
  split
  · rename_i e
    subst e
    simpa using this
  · exact this

/-! ## Runs -/

/-- Every request is the same with and without the clamp, and keeps the counters balanced. -/
theorem handle_settles (services : Services) {w : World} (hb : Balanced w.db) (r : Request) :
    Settles BalancedWorld fun increment => handle services increment w r := by
  cases r with
  | saveDocument userId name file folderId limits id =>
    exact saveDocument_settles services hb userId name file folderId limits id
  | duplicate userId documentId limits id =>
    exact duplicate_settles services hb userId documentId limits id
  | createVersion userId documentId data editGrant =>
    exact createVersion_settles services hb userId documentId data editGrant
  | restoreOriginal userId documentId => exact restoreOriginal_settles services hb userId documentId
  | delete userId documentId permanent now =>
    exact .read fun d hd => removeDocument_settles hb (find?_filter hd).2.1 permanent now
  | restore userId documentId limits =>
    refine .read fun d hd => ?_
    obtain ⟨-, hfind, hp⟩ := find?_filter hd
    simp only [Bool.and_eq_true] at hp
    exact returnDocument_settles hb hfind hp.2 (some limits)
  | adminDelete documentId permanent now =>
    refine .read fun d hd => removeDocument_settles hb ?_ permanent now
    exact Table.find?_of_mem (Table.find?_eq_some.mp hd).1
  | adminRestore documentId =>
    refine .read fun d hd => ?_
    obtain ⟨-, hfind, hp⟩ := find?_filter hd
    exact returnDocument_settles hb hfind hp none
  | thumbnail userId documentId image => exact ⟨rfl, fun x hx => thumbnail_balanced hb hx⟩
  | purge cutoff ids => exact ⟨rfl, fun x hx => purgeTrashedDocuments_balanced hb hx⟩
  | createFolder userId name parentId id => exact ⟨rfl, fun x hx => createFolder_balanced hb hx⟩
  | moveFolder userId folderId parentId => exact ⟨rfl, fun x hx => moveFolder_balanced hb hx⟩
  | moveDocument userId documentId folderId => exact ⟨rfl, fun x hx => moveDocument_balanced hb hx⟩
  | deleteFolder userId folderId cascade now =>
    exact deleteFolder_settles hb userId folderId cascade now
  | erase userId => exact erase_settles hb userId
  | getOrCreateQuota userId => exact .some (getOrCreateQuota_balanced hb userId)
  | setUserPlan plan => exact .some (setUserPlan_balanced hb plan)
  | createTenant tenant =>
    refine ⟨rfl, fun x hx => ?_⟩
    obtain ⟨db, hdb, rfl⟩ := Option.map_eq_some_iff.mp hx
    exact createTenant_balanced hb hdb
  | setTenantPlan plan => exact .some (setTenantPlan_balanced hb plan)
  | setMembers members => exact .some (hb.of_same rfl rfl rfl)
  | setPlans plans => exact .some (hb.of_same rfl rfl rfl)

theorem balanced_empty : Balanced World.empty.db :=
  ⟨funext fun c => by cases c <;> rfl, fun d hd => by cases hd⟩

/-- Worlds that the application can reach from an empty database. -/
abbrev Reachable (services : Services) : World → Prop :=
  Runs.Reaches (handle services clampedIncrement) Runs.always World.empty

theorem reachable_balanced {services : Services} {w : World} (h : Reachable services w) :
    Balanced w.db := by
  have start : BalancedWorld World.empty := balanced_empty
  refine h.invariant (fun w r w' hb _ step => ?_) start
  obtain ⟨same, result⟩ := handle_settles services hb r
  exact result w' (same ▸ step)

/-- The active documents recorded on a counter. -/
def Db.countedOn (db : Db) (c : Counter) : List StoredDocument :=
  db.documents.rows.filter fun d => !d.isDeleted && d.counter = c

theorem recorded_eq (db : Db) (c : Counter) :
    db.recorded c =
      (((db.countedOn c).map fun d => (d.size : Int)).sum, ((db.countedOn c).length : Int)) := by
  unfold Db.recorded Ledger.recorded Table.total Db.countedOn
  induction db.documents.rows with
  | nil => rfl
  | cons d rest ih =>
    simp only [List.map_cons, List.sum_cons, ih, List.filter_cons]
    by_cases hc : d.counter = c
    · cases hd : d.isDeleted with
      | true => simp [hc, weight_trashed hd]
      | false =>
        rw [if_pos hc, weight_active hd, if_pos (by simp [hc])]
        ext <;> simp [add_comm]
    · simp [hc]

/-- In every reachable state each counter is the size and number of the active documents
recorded on it, and no next request computes a counter that the clamp at zero changes. -/
theorem counters_exact (services : Services) {w : World} (h : Reachable services w) :
    (∀ c, w.db.usage c =
      (((w.db.countedOn c).map fun d => (d.size : Int)).sum, ((w.db.countedOn c).length : Int))) ∧
    ∀ r, handle services clampedIncrement w r = handle services exactIncrement w r := by
  have hb := reachable_balanced h
  refine ⟨fun c => ?_, fun r => (handle_settles services hb r).1⟩
  rw [hb.exact, recorded_eq]

/-- An organization that counts the documents of its members. -/
def acme : Tenant where
  id := uuid "acme"
  name := "Acme"
  planId := none
  status := .active
  trialStartAt := none
  trialEndsAt := none
  hasUsedTrial := false
  stripeCustomerId := none
  stripeSubscriptionId := none
  storageLimitBytes := gigabytes 5
  storageUsedBytes := 0
  apiCallsLimit := 10000
  apiCallsUsed := 0
  documentLimit := 1000
  documentCount := 0
  maxMembers := 5

def anaAtAcme : TenantMember := ⟨uuid "acme", "ana", .owner, true⟩

/-- A document charged to an organization stays on its counter when its owner has left. -/
theorem counters_exact_after_leaving : ∃ w, Reachable plainServices w ∧
    w.db.usage (.tenant (uuid "acme")) = (6, 1) ∧
    ((w.db.countedOn (.tenant (uuid "acme"))).map fun d => (d.size : Int)).sum = 6 := by
  obtain ⟨w, reach, used⟩ := Runs.exists_reaches_of_runAll
    (handle plainServices clampedIncrement) Runs.always World.empty
    [.getOrCreateQuota "ana", .createTenant acme, .setMembers [anaAtAcme],
     .saveDocument "ana" "note" ⟨ascii "%PDF-", some "note.pdf", none⟩ none
       (tenantLimits none anaAtAcme acme) (uuid "note"),
     .setMembers [],
     .createVersion "ana" (uuid "note") (ascii "%PDF-2") false]
    (fun w => w.db.usage (.tenant (uuid "acme")) = (6, 1)) (by decide)
  have exact := (counters_exact plainServices reach).1 (.tenant (uuid "acme"))
  rw [used, Prod.mk.injEq] at exact
  exact ⟨w, reach, used, exact.1.symm⟩

end GigaPdf
