import GigaPdf.Quota
import GigaPdf.Storage.Requests

/-!
# Billing

What Stripe events (`api/v1/webhooks.py`), trials (`billing_permission_service.py`), the
billing tasks and plan changes do to the row of a user or an organization. `none` is an
exception: the handler's transaction rolls back.
-/

namespace GigaPdf

inductive BillingEntity
  | user (userId : String)
  | tenant (id : Uuid)
deriving DecidableEq

/-- The subscription object of an event. `planSlug` is the plan of its first price, when Stripe
knows it. -/
structure Subscription where
  id : String
  customer : String
  status : SubscriptionStatus
  cancelAtPeriodEnd : Bool
  currentPeriodEnd : Option Time
  trialStart : Option Time
  trialEnd : Option Time
  planSlug : Option String
deriving DecidableEq

/-- What Stripe answers to `Subscription.retrieve`. -/
inductive StripeAnswer
  | subscription (status : SubscriptionStatus)
  | invalidRequest
  | unavailable
deriving DecidableEq

def TRIAL_DURATION_DAYS : Int := 14

/-! ## Users -/

namespace UserQuota

def upgradePlan (q : UserQuota) (planType : String) (expiresAt : Option Time) : Option UserQuota :=
  (PLANS planType).map fun plan =>
    { q with
      planType := planType
      storageLimitBytes := plan.storageLimitBytes
      apiCallsLimit := plan.apiCallsLimit
      documentLimit := plan.documentLimit
      planExpiresAt := expiresAt }

/-- What a new subscription sets besides the plan. -/
def takeSubscription (s : Subscription) (q : UserQuota) : UserQuota :=
  { q with
    stripeSubscriptionId := some s.id
    subscriptionStatus := s.status
    currentPeriodEnd := some (s.currentPeriodEnd.getD 0)
    cancelAtPeriodEnd := s.cancelAtPeriodEnd
    trialStartAt := if s.status = .trialing then s.trialStart.or q.trialStartAt else q.trialStartAt
    trialEndsAt := if s.status = .trialing then s.trialEnd.or q.trialEndsAt else q.trialEndsAt }

def handleSubscriptionCreated (s : Subscription) (q : UserQuota) : Option UserQuota :=
  match s.planSlug with
  | some slug => (q.takeSubscription s).upgradePlan slug none
  | none => some (q.takeSubscription s)

/-- What an update sets besides the plan. The status that decides on the trial is read after it
was overwritten. -/
def syncSubscription (s : Subscription) (q : UserQuota) : UserQuota :=
  let q :=
    { q with
      subscriptionStatus := s.status
      currentPeriodEnd := some (s.currentPeriodEnd.getD 0)
      cancelAtPeriodEnd := s.cancelAtPeriodEnd }
  { q with
    hasUsedTrial := q.hasUsedTrial || (s.status = .active && q.subscriptionStatus = .trialing) }

def handleSubscriptionUpdated (s : Subscription) (q : UserQuota) : Option UserQuota :=
  match s.planSlug with
  | some slug =>
    if slug ≠ q.planType then (q.syncSubscription s).upgradePlan slug none
    else some (q.syncSubscription s)
  | none => some (q.syncSubscription s)

def handleSubscriptionDeleted (q : UserQuota) : Option UserQuota :=
  { q with
    subscriptionStatus := .canceled
    planType := "free"
    stripeSubscriptionId := none
    currentPeriodEnd := none
    cancelAtPeriodEnd := false }.upgradePlan "free" none

def handleInvoicePaid (q : UserQuota) : UserQuota :=
  if q.subscriptionStatus = .trialing ∨ q.subscriptionStatus = .pastDue then
    { q with subscriptionStatus := .active, hasUsedTrial := true }
  else q

def handlePaymentFailed (attemptCount : Nat) (q : UserQuota) : UserQuota :=
  if attemptCount ≥ 2 then { q with subscriptionStatus := .pastDue } else q

def startTrial (planSlug : String) (now : Time) (q : UserQuota) : Option UserQuota :=
  if q.hasUsedTrial then none
  else
    { q with
      trialStartAt := some now
      trialEndsAt := some (now + days TRIAL_DURATION_DAYS)
      subscriptionStatus := .trialing
      planType := planSlug }.upgradePlan planSlug none

def endTrial (convertToPaid : Bool) (q : UserQuota) : Option UserQuota :=
  let q := { q with hasUsedTrial := true }
  if convertToPaid then some { q with subscriptionStatus := .active }
  else { q with subscriptionStatus := .none, planType := "free" }.upgradePlan "free" none

/-- The users that the trial task selects. -/
def trialExpired (now : Time) (q : UserQuota) : Bool :=
  q.subscriptionStatus = .trialing && q.trialEndsAt.any (· < now)

def converts (subscriptionId : Option String) (answer : StripeAnswer) : Bool :=
  subscriptionId.isSome && answer = .subscription .active

/-- Here the free plan has limits of its own. -/
def processUserTrialEnd (answer : StripeAnswer) (q : UserQuota) : UserQuota :=
  let q := { q with hasUsedTrial := true }
  if converts q.stripeSubscriptionId answer then { q with subscriptionStatus := .active }
  else
    { q with
      subscriptionStatus := .none
      planType := "free"
      storageLimitBytes := gigabytes 5
      apiCallsLimit := 1000
      documentLimit := 100 }

/-- The users that the cleanup task selects. -/
def mayBeStale (q : UserQuota) : Bool :=
  q.stripeSubscriptionId.isSome && (q.subscriptionStatus = .active ||
    q.subscriptionStatus = .pastDue || q.subscriptionStatus = .trialing)

def cleanupStaleSubscription (answer : StripeAnswer) (q : UserQuota) : UserQuota :=
  match answer with
  | .subscription status =>
    if status ≠ q.subscriptionStatus then
      if status = .canceled then
        { q with subscriptionStatus := status, planType := "free", stripeSubscriptionId := none }
      else { q with subscriptionStatus := status }
    else q
  | .invalidRequest =>
    { q with subscriptionStatus := .none, stripeSubscriptionId := none, planType := "free" }
  | .unavailable => q

end UserQuota

/-! ## Organizations -/

def planBySlug (plans : Plans) (slug : String) : Option Plan :=
  plans.rows.find? fun p => p.slug = slug

namespace Tenant

/-- The limits that a subscription's plan sets: all but the number of members. -/
def takePlan (t : Tenant) (plan : Plan) : Tenant :=
  { t with
    planId := some plan.id
    storageLimitBytes := plan.storageLimitBytes
    apiCallsLimit := plan.apiCallsLimit
    documentLimit := plan.documentLimit }

def dropPlan (t : Tenant) : Tenant :=
  { t with
    planId := none
    storageLimitBytes := gigabytes 5
    apiCallsLimit := 1000
    documentLimit := 100 }

/-- What a new subscription sets besides the plan. -/
def takeSubscription (s : Subscription) (t : Tenant) : Tenant :=
  if s.status = .trialing then
    { t with
      stripeSubscriptionId := some s.id
      status := .trial
      trialStartAt := s.trialStart.or t.trialStartAt
      trialEndsAt := s.trialEnd.or t.trialEndsAt }
  else { t with stripeSubscriptionId := some s.id, status := .active }

def handleSubscriptionCreated (plans : Plans) (s : Subscription) (t : Tenant) : Tenant :=
  match s.planSlug.bind (planBySlug plans) with
  | some plan => (t.takeSubscription s).takePlan plan
  | none => t.takeSubscription s

/-- The status that an update sets; other subscription statuses set none. -/
def updatedStatus : SubscriptionStatus → Option TenantStatus
  | .active => some .active
  | .trialing => some .trial
  | .pastDue => some .suspended
  | .canceled => some .cancelled
  | _ => none

/-- What an update sets besides the plan. -/
def syncSubscription (s : Subscription) (t : Tenant) : Tenant :=
  { t with
    status := (updatedStatus s.status).getD t.status
    hasUsedTrial := t.hasUsedTrial || s.status = .active }

def handleSubscriptionUpdated (plans : Plans) (s : Subscription) (t : Tenant) : Tenant :=
  match s.planSlug.bind (planBySlug plans) with
  | some plan =>
    if t.planId ≠ some plan.id then (t.syncSubscription s).takePlan plan else t.syncSubscription s
  | none => t.syncSubscription s

def handleSubscriptionDeleted (t : Tenant) : Tenant :=
  { t with status := .cancelled, stripeSubscriptionId := none }.dropPlan

def handleInvoicePaid (t : Tenant) : Tenant :=
  if t.status = .trial ∨ t.status = .suspended then
    { t with status := .active, hasUsedTrial := true }
  else t

def handlePaymentFailed (attemptCount : Nat) (t : Tenant) : Tenant :=
  if attemptCount ≥ 2 then { t with status := .suspended } else t

def startTrial (plans : Plans) (planSlug : String) (now : Time) (t : Tenant) : Option Tenant :=
  if t.hasUsedTrial then none
  else
    let t :=
      { t with
        trialStartAt := some now
        trialEndsAt := some (now + days TRIAL_DURATION_DAYS)
        status := .trial }
    match (planBySlug plans planSlug).filter (·.isActive) with
    | some plan => some (t.takePlan plan)
    | none => some t

def endTrial (convertToPaid : Bool) (t : Tenant) : Tenant :=
  let t := { t with hasUsedTrial := true, status := .active }
  if convertToPaid then t else t.dropPlan

/-- The organizations that the trial task selects. -/
def trialExpired (now : Time) (t : Tenant) : Bool :=
  t.status = .trial && t.trialEndsAt.any (· < now)

def processTenantTrialEnd (answer : StripeAnswer) (t : Tenant) : Tenant :=
  let t := { t with hasUsedTrial := true, status := .active }
  if UserQuota.converts t.stripeSubscriptionId answer then t else t.dropPlan

def applyPlan (plans : Plans) (planId : Uuid) (t : Tenant) : Option Tenant :=
  ((plans.find? planId).filter (·.isTenantPlan)).map fun plan =>
    { t.takePlan plan with maxMembers := plan.maxMembers, status := .active }

end Tenant

/-! ## Events -/

inductive BillingEvent
  | subscriptionCreated (s : Subscription)
  | subscriptionUpdated (s : Subscription)
  | subscriptionDeleted (s : Subscription)
  | invoicePaid (customer : String)
  | paymentFailed (customer : String) (attemptCount : Nat)
  | startTrial (entity : BillingEntity) (planSlug : String) (now : Time)
  | endTrial (entity : BillingEntity) (convertToPaid : Bool)
  | processTrialEnd (entity : BillingEntity) (answer : StripeAnswer) (now : Time)
  | cleanupStaleSubscription (userId : String) (answer : StripeAnswer)
  | upgradePlan (userId planType : String) (expiresAt : Option Time)
  | applyPlanToTenant (tenantId planId : Uuid)
deriving DecidableEq

/-- Organizations first, then users; the column is unique in both tables. -/
def Db.getBillingEntityFromCustomer (db : Db) (customer : String) : Option BillingEntity :=
  ((db.tenants.rows.find? fun t => t.stripeCustomerId = some customer).map fun t =>
    .tenant t.id).or
  ((db.users.rows.find? fun q => q.stripeCustomerId = some customer).map fun q => .user q.userId)

def BillingEvent.entity (db : Db) : BillingEvent → Option BillingEntity
  | .subscriptionCreated s | .subscriptionUpdated s | .subscriptionDeleted s =>
    db.getBillingEntityFromCustomer s.customer
  | .invoicePaid customer | .paymentFailed customer _ => db.getBillingEntityFromCustomer customer
  | .startTrial entity _ _ | .endTrial entity _ | .processTrialEnd entity _ _ => some entity
  | .cleanupStaleSubscription userId _ | .upgradePlan userId _ _ => some (.user userId)
  | .applyPlanToTenant tenantId _ => some (.tenant tenantId)

def BillingEvent.onUser : BillingEvent → UserQuota → Option UserQuota
  | .subscriptionCreated s, q => q.handleSubscriptionCreated s
  | .subscriptionUpdated s, q => q.handleSubscriptionUpdated s
  | .subscriptionDeleted _, q => q.handleSubscriptionDeleted
  | .invoicePaid _, q => some q.handleInvoicePaid
  | .paymentFailed _ attemptCount, q => some (q.handlePaymentFailed attemptCount)
  | .startTrial _ planSlug now, q => q.startTrial planSlug now
  | .endTrial _ convertToPaid, q => q.endTrial convertToPaid
  | .processTrialEnd _ answer now, q =>
    if q.trialExpired now then some (q.processUserTrialEnd answer) else some q
  | .cleanupStaleSubscription _ answer, q =>
    if q.mayBeStale then some (q.cleanupStaleSubscription answer) else some q
  | .upgradePlan _ planType expiresAt, q => q.upgradePlan planType expiresAt
  | .applyPlanToTenant _ _, _ => none

def BillingEvent.onTenant (plans : Plans) : BillingEvent → Tenant → Option Tenant
  | .subscriptionCreated s, t => some (t.handleSubscriptionCreated plans s)
  | .subscriptionUpdated s, t => some (t.handleSubscriptionUpdated plans s)
  | .subscriptionDeleted _, t => some t.handleSubscriptionDeleted
  | .invoicePaid _, t => some t.handleInvoicePaid
  | .paymentFailed _ attemptCount, t => some (t.handlePaymentFailed attemptCount)
  | .startTrial _ planSlug now, t => t.startTrial plans planSlug now
  | .endTrial _ convertToPaid, t => some (t.endTrial convertToPaid)
  | .processTrialEnd _ answer now, t =>
    if t.trialExpired now then some (t.processTenantTrialEnd answer) else some t
  | .cleanupStaleSubscription _ _, _ | .upgradePlan _ _ _, _ => none
  | .applyPlanToTenant _ planId, t => t.applyPlan plans planId

/-- The tables that an event finds: a plan change creates a missing quota first. -/
def BillingEvent.prepare (db : Db) : BillingEvent → Db
  | .upgradePlan userId _ _ => db.getOrCreateQuota userId
  | _ => db

inductive BillingRow
  | user (q : UserQuota)
  | tenant (t : Tenant)
deriving DecidableEq

def Db.billingRow (db : Db) : BillingEntity → Option BillingRow
  | .user userId => (db.users.find? userId).map .user
  | .tenant id => (db.tenants.find? id).map .tenant

def Db.setPlan (db : Db) : BillingRow → Db
  | .user q => db.setUserPlan q
  | .tenant t => db.setTenantPlan t

def BillingEvent.onRow (plans : Plans) (e : BillingEvent) : BillingRow → Option BillingRow
  | .user q => (e.onUser q).map .user
  | .tenant t => (e.onTenant plans t).map .tenant

/-- An event whose customer is unknown changes nothing. -/
def Db.billingStep (db : Db) (e : BillingEvent) : Option Db :=
  let db := e.prepare db
  match e.entity db with
  | none => some db
  | some entity =>
    (db.billingRow entity).bind fun row => (e.onRow db.plans row).map db.setPlan

/-- Stripe gets its answer either way; an exception changes nothing. -/
def Db.deliver (db : Db) (e : BillingEvent) : Db := (db.billingStep e).getD db

/-! ## What an event leaves alone -/

/-- The key, the customer and the counters of a row. -/
def BillingRow.identity : BillingRow → BillingEntity × Option String × Int × Int
  | .user q => (.user q.userId, q.stripeCustomerId, q.storageUsedBytes, q.documentCount)
  | .tenant t => (.tenant t.id, t.stripeCustomerId, t.storageUsedBytes, t.documentCount)

theorem upgradePlan_spec {q q' : UserQuota} {planType : String} {expiresAt : Option Time}
    (h : q.upgradePlan planType expiresAt = some q') :
    ∃ plan, PLANS planType = some plan ∧ q' =
      { q with
        planType := planType
        storageLimitBytes := plan.storageLimitBytes
        apiCallsLimit := plan.apiCallsLimit
        documentLimit := plan.documentLimit
        planExpiresAt := expiresAt } := by
  obtain ⟨plan, hplan, rfl⟩ := Option.map_eq_some_iff.mp h
  exact ⟨plan, hplan, rfl⟩

theorem upgradePlan_identity {q q' : UserQuota} {planType : String} {expiresAt : Option Time}
    (h : q.upgradePlan planType expiresAt = some q') :
    (BillingRow.user q').identity = (BillingRow.user q).identity := by
  obtain ⟨plan, -, rfl⟩ := upgradePlan_spec h
  rfl

theorem onUser_identity {e : BillingEvent} {q q' : UserQuota} (h : e.onUser q = some q') :
    (BillingRow.user q').identity = (BillingRow.user q).identity := by
  cases e with
  | subscriptionCreated s =>
    simp only [BillingEvent.onUser, UserQuota.handleSubscriptionCreated] at h
    split at h
    · exact (upgradePlan_identity h).trans rfl
    · cases h; rfl
  | subscriptionUpdated s =>
    simp only [BillingEvent.onUser, UserQuota.handleSubscriptionUpdated] at h
    split at h
    · split at h
      · exact (upgradePlan_identity h).trans rfl
      · cases h; rfl
    · cases h; rfl
  | subscriptionDeleted s =>
    simp only [BillingEvent.onUser, UserQuota.handleSubscriptionDeleted] at h
    exact (upgradePlan_identity h).trans rfl
  | invoicePaid customer =>
    cases h
    unfold UserQuota.handleInvoicePaid
    split <;> rfl
  | paymentFailed customer attemptCount =>
    cases h
    unfold UserQuota.handlePaymentFailed
    split <;> rfl
  | startTrial entity planSlug now =>
    simp only [BillingEvent.onUser, UserQuota.startTrial, Option.ite_none_left_eq_some] at h
    exact (upgradePlan_identity h.2).trans rfl
  | endTrial entity convertToPaid =>
    simp only [BillingEvent.onUser, UserQuota.endTrial] at h
    split at h
    · cases h; rfl
    · exact (upgradePlan_identity h).trans rfl
  | processTrialEnd entity answer now =>
    simp only [BillingEvent.onUser, UserQuota.processUserTrialEnd] at h
    split at h
    · cases h
      split <;> rfl
    · cases h; rfl
  | cleanupStaleSubscription userId answer =>
    simp only [BillingEvent.onUser, UserQuota.cleanupStaleSubscription] at h
    split at h
    · cases h
      repeat' split
      all_goals rfl
    · cases h; rfl
  | upgradePlan userId planType expiresAt => exact upgradePlan_identity h
  | applyPlanToTenant tenantId planId => cases h

theorem onTenant_identity {plans : Plans} {e : BillingEvent} {t t' : Tenant}
    (h : e.onTenant plans t = some t') :
    (BillingRow.tenant t').identity = (BillingRow.tenant t).identity := by
  cases e with
  | subscriptionCreated s =>
    cases h
    simp only [Tenant.handleSubscriptionCreated, Tenant.takeSubscription]
    split <;> split <;> rfl
  | subscriptionUpdated s =>
    cases h
    unfold Tenant.handleSubscriptionUpdated
    split
    · split <;> rfl
    · rfl
  | subscriptionDeleted s => cases h; rfl
  | invoicePaid customer =>
    cases h
    unfold Tenant.handleInvoicePaid
    split <;> rfl
  | paymentFailed customer attemptCount =>
    cases h
    unfold Tenant.handlePaymentFailed
    split <;> rfl
  | startTrial entity planSlug now =>
    simp only [BillingEvent.onTenant, Tenant.startTrial, Option.ite_none_left_eq_some] at h
    obtain ⟨-, h⟩ := h
    split at h <;> (cases h; rfl)
  | endTrial entity convertToPaid =>
    cases h
    simp only [Tenant.endTrial]
    split <;> rfl
  | processTrialEnd entity answer now =>
    simp only [BillingEvent.onTenant, Tenant.processTenantTrialEnd] at h
    split at h
    · cases h
      split <;> rfl
    · cases h; rfl
  | cleanupStaleSubscription userId answer => cases h
  | upgradePlan userId planType expiresAt => cases h
  | applyPlanToTenant tenantId planId =>
    obtain ⟨plan, -, rfl⟩ := Option.map_eq_some_iff.mp h
    rfl

theorem onRow_identity {plans : Plans} {e : BillingEvent} {r r' : BillingRow}
    (h : e.onRow plans r = some r') : r'.identity = r.identity := by
  cases r with
  | user q =>
    obtain ⟨q', hq', rfl⟩ := Option.map_eq_some_iff.mp h
    exact onUser_identity hq'
  | tenant t =>
    obtain ⟨t', ht', rfl⟩ := Option.map_eq_some_iff.mp h
    exact onTenant_identity ht'

theorem billingRow_key {db : Db} {entity : BillingEntity} {r : BillingRow}
    (h : db.billingRow entity = some r) : r.identity.1 = entity := by
  cases entity with
  | user userId =>
    obtain ⟨q, hq, rfl⟩ := Option.map_eq_some_iff.mp h
    exact congrArg BillingEntity.user (Table.find?_eq_some.mp hq).2
  | tenant id =>
    obtain ⟨t, ht, rfl⟩ := Option.map_eq_some_iff.mp h
    exact congrArg BillingEntity.tenant (Table.find?_eq_some.mp ht).2

/-- Writing a row that keeps its identity changes this row only. -/
theorem billingRow_setPlan {db : Db} {entity : BillingEntity} {r r' : BillingRow}
    (found : db.billingRow entity = some r) (same : r'.identity = r.identity)
    (other : BillingEntity) :
    (db.setPlan r').billingRow other = if other = entity then some r' else db.billingRow other := by
  have key := (congrArg Prod.fst same).trans (billingRow_key found)
  cases entity with
  | user userId =>
    obtain ⟨q, hq, rfl⟩ := Option.map_eq_some_iff.mp found
    cases r' with
    | tenant t' => cases key
    | user q' =>
      simp only [BillingRow.identity, Prod.mk.injEq, BillingEntity.user.injEq] at same key
      obtain ⟨-, -, hbytes, hcount⟩ := same
      subst key
      cases other with
      | tenant id => rfl
      | user other =>
        simp only [Db.setPlan, Db.setUserPlan, Db.billingRow, Table.find?_update,
          BillingEntity.user.injEq]
        split
        · rw [hq]
          simp only [Option.map_some, ← hbytes, ← hcount, (Table.find?_eq_some.mp hq).2]
        · rfl
  | tenant id =>
    obtain ⟨t, ht, rfl⟩ := Option.map_eq_some_iff.mp found
    cases r' with
    | user q' => cases key
    | tenant t' =>
      simp only [BillingRow.identity, Prod.mk.injEq, BillingEntity.tenant.injEq] at same key
      obtain ⟨-, -, hbytes, hcount⟩ := same
      subst key
      cases other with
      | user userId => rfl
      | tenant other =>
        simp only [Db.setPlan, Db.setTenantPlan, Db.billingRow, Table.find?_update,
          BillingEntity.tenant.injEq]
        split
        · rw [ht]
          simp only [Option.map_some, ← hbytes, ← hcount, (Table.find?_eq_some.mp ht).2]
        · rfl

theorem prepare_cases (db : Db) (e : BillingEvent) :
    e.prepare db = db ∨ ∃ userId planType expiresAt, e = .upgradePlan userId planType expiresAt ∧
      e.prepare db = db.getOrCreateQuota userId := by
  cases e
  case upgradePlan userId planType expiresAt => exact .inr ⟨_, _, _, rfl, rfl⟩
  all_goals exact .inl rfl

/-- A quota row is only created for the user that is asked for. -/
theorem billingRow_getOrCreateQuota (db : Db) (userId : String) (entity : BillingEntity) :
    (db.getOrCreateQuota userId).billingRow entity = db.billingRow entity ∨
      entity = .user userId ∧ db.billingRow entity = none ∧
        (db.getOrCreateQuota userId).billingRow entity = some (.user (freeQuotaValues userId)) := by
  unfold Db.getOrCreateQuota
  split
  · rename_i users inserted
    cases entity with
    | tenant id => exact .inl rfl
    | user other =>
      have fresh := (Table.insert?_eq_some.mp inserted).1
      simp only [Db.billingRow, Table.find?_insert? inserted]
      by_cases same : (freeQuotaValues userId).userId = other
      · subst same
        exact .inr ⟨rfl, by rw [fresh]; rfl, by rw [if_pos rfl]; rfl⟩
      · exact .inl (by rw [if_neg same])
  · exact .inl rfl

/-- A row that an event finds was there before, or it is the quota that a plan change created. -/
theorem prepare_row {db : Db} {e : BillingEvent} {entity : BillingEntity} {r : BillingRow}
    (h : (e.prepare db).billingRow entity = some r) :
    db.billingRow entity = some r ∨ db.billingRow entity = none ∧
      ∃ userId planType expiresAt, e = .upgradePlan userId planType expiresAt ∧
        r = .user (freeQuotaValues userId) := by
  obtain same | ⟨userId, planType, expiresAt, rfl, same⟩ := prepare_cases db e
  · rw [same] at h
    exact .inl h
  · rw [same] at h
    obtain old | ⟨-, missing, created⟩ := billingRow_getOrCreateQuota db userId entity
    · exact .inl (old.symm.trans h)
    · cases created.symm.trans h
      exact .inr ⟨missing, _, _, _, rfl, rfl⟩

theorem setPlan_plans (db : Db) (r : BillingRow) : (db.setPlan r).plans = db.plans := by
  cases r <;> rfl

theorem prepare_plans (db : Db) (e : BillingEvent) : (e.prepare db).plans = db.plans := by
  obtain h | ⟨userId, _, _, -, h⟩ := prepare_cases db e
  · rw [h]
  · rw [h]
    unfold Db.getOrCreateQuota
    split <;> rfl

theorem billingStep_plans {db db' : Db} {e : BillingEvent} (h : db.billingStep e = some db') :
    db'.plans = db.plans := by
  simp only [Db.billingStep] at h
  split at h
  · cases h
    exact prepare_plans db e
  · obtain ⟨r, -, h⟩ := Option.bind_eq_some_iff.mp h
    obtain ⟨r', -, rfl⟩ := Option.map_eq_some_iff.mp h
    rw [setPlan_plans, prepare_plans]

/-- An event is about one row, which it replaces, and leaves all others alone. -/
theorem billingStep_row {db db' : Db} {e : BillingEvent} (h : db.billingStep e = some db')
    (entity : BillingEntity) :
    e.entity db ≠ some entity ∧ db'.billingRow entity = db.billingRow entity ∨
      e.entity db = some entity ∧ ∃ r r', (e.prepare db).billingRow entity = some r ∧
        e.onRow db.plans r = some r' ∧ db'.billingRow entity = some r' := by
  have subject : e.entity (e.prepare db) = e.entity db := by
    obtain h | ⟨userId, planType, expiresAt, rfl, -⟩ := prepare_cases db e
    · rw [h]
    · rfl
  have untouched : e.entity db ≠ some entity →
      (e.prepare db).billingRow entity = db.billingRow entity := by
    intro hne
    obtain h | ⟨userId, planType, expiresAt, rfl, h⟩ := prepare_cases db e
    · rw [h]
    · rw [h]
      obtain same | ⟨he, -⟩ := billingRow_getOrCreateQuota db userId entity
      · exact same
      · subst he
        exact absurd rfl hne
  simp only [Db.billingStep, subject, prepare_plans] at h
  split at h
  · rename_i none_of
    cases h
    have hne : e.entity db ≠ some entity := by simp [none_of]
    exact .inl ⟨hne, untouched hne⟩
  · rename_i about subject_eq
    obtain ⟨r, found, h⟩ := Option.bind_eq_some_iff.mp h
    obtain ⟨r', stepped, rfl⟩ := Option.map_eq_some_iff.mp h
    have set := billingRow_setPlan found (onRow_identity stepped) entity
    by_cases he : entity = about
    · subst he
      rw [if_pos rfl] at set
      exact .inr ⟨subject_eq, r, r', found, stepped, set⟩
    · rw [if_neg he] at set
      have hne : e.entity db ≠ some entity := by
        rw [subject_eq]
        simpa using Ne.symm he
      exact .inl ⟨hne, set.trans (untouched hne)⟩

/-! ## Customers -/

theorem setPlan_customer {db : Db} {entity : BillingEntity} {r r' : BillingRow}
    (found : db.billingRow entity = some r) (same : r'.identity = r.identity) (customer : String) :
    (db.setPlan r').getBillingEntityFromCustomer customer =
      db.getBillingEntityFromCustomer customer := by
  have key := (congrArg Prod.fst same).trans (billingRow_key found)
  have customers := congrArg (·.2.1) same
  cases entity with
  | user userId =>
    obtain ⟨q, hq, rfl⟩ := Option.map_eq_some_iff.mp found
    cases r' with
    | tenant t' => cases key
    | user q' =>
      cases key
      have row : ∀ x ∈ db.users.rows, x.userId = q'.userId → x = q := fun x hx hk =>
        db.users.eq_of_key_eq hx (Table.find?_eq_some.mp hq).1
          (hk.trans (Table.find?_eq_some.mp hq).2.symm)
      simp only [Db.getBillingEntityFromCustomer, Db.setPlan, Db.setUserPlan]
      congr 1
      rw [Table.find?_rows_update, Option.map_map]
      · congr 1
        funext x
        simp only [Function.comp]
        split <;> rfl
      · intro x hx hk
        rw [row x hx hk]
        exact decide_eq_decide.mpr (by rw [show q'.stripeCustomerId = q.stripeCustomerId from customers])
  | tenant id =>
    obtain ⟨t, ht, rfl⟩ := Option.map_eq_some_iff.mp found
    cases r' with
    | user q' => cases key
    | tenant t' =>
      cases key
      have row : ∀ x ∈ db.tenants.rows, x.id = t'.id → x = t := fun x hx hk =>
        db.tenants.eq_of_key_eq hx (Table.find?_eq_some.mp ht).1
          (hk.trans (Table.find?_eq_some.mp ht).2.symm)
      simp only [Db.getBillingEntityFromCustomer, Db.setPlan, Db.setTenantPlan]
      congr 1
      rw [Table.find?_rows_update, Option.map_map]
      · congr 1
        funext x
        simp only [Function.comp]
        split <;> rfl
      · intro x hx hk
        rw [row x hx hk]
        exact decide_eq_decide.mpr (by rw [show t'.stripeCustomerId = t.stripeCustomerId from customers])

theorem prepare_customer (db : Db) (e : BillingEvent) (customer : String) :
    (e.prepare db).getBillingEntityFromCustomer customer =
      db.getBillingEntityFromCustomer customer := by
  obtain h | ⟨userId, _, _, -, h⟩ := prepare_cases db e
  · rw [h]
  · rw [h]
    unfold Db.getOrCreateQuota
    split
    · rename_i users inserted
      simp only [Db.getBillingEntityFromCustomer, (Table.insert?_eq_some.mp inserted).2]
      rfl
    · rfl

/-- No event moves a customer to another user or organization. -/
theorem billingStep_customer {db db' : Db} {e : BillingEvent} (h : db.billingStep e = some db')
    (customer : String) :
    db'.getBillingEntityFromCustomer customer = db.getBillingEntityFromCustomer customer := by
  simp only [Db.billingStep] at h
  split at h
  · cases h
    exact prepare_customer db e customer
  · obtain ⟨r, found, h⟩ := Option.bind_eq_some_iff.mp h
    obtain ⟨r', stepped, rfl⟩ := Option.map_eq_some_iff.mp h
    rw [setPlan_customer found (onRow_identity stepped), prepare_customer]

/-! ## The storage system -/

/-- Billing events are steps of the storage system. -/
theorem billingStep_reaches {services : Services} {increment : Increment} {w : World} {db' : Db}
    {e : BillingEvent} (h : w.db.billingStep e = some db') :
    Runs.Reaches (handle services increment) Runs.always w (w.withDb db') := by
  have prepared : Runs.Reaches (handle services increment) Runs.always w
      (w.withDb (e.prepare w.db)) := by
    obtain same | ⟨userId, _, _, -, same⟩ := prepare_cases w.db e
    · rw [same]
      exact .refl
    · rw [same]
      exact .single ⟨.getOrCreateQuota userId, trivial, rfl⟩
  simp only [Db.billingStep] at h
  split at h
  · cases h
    exact prepared
  · obtain ⟨r, -, h⟩ := Option.bind_eq_some_iff.mp h
    obtain ⟨r', -, rfl⟩ := Option.map_eq_some_iff.mp h
    cases r' with
    | user q => exact prepared.tail ⟨.setUserPlan q, trivial, rfl⟩
    | tenant t => exact prepared.tail ⟨.setTenantPlan t, trivial, rfl⟩

end GigaPdf
