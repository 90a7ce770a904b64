import GigaPdf.Billing.Events

/-!
# The limits of a plan

Every handler that changes a plan copies the limits by hand. The limits on a row are those of
its plan as long as no event takes a path that leaves some of them out or writes its own.
-/

namespace GigaPdf

def UserQuota.limits (q : UserQuota) : PlanLimits :=
  ⟨q.storageLimitBytes, q.apiCallsLimit, q.documentLimit⟩

def Tenant.limits (t : Tenant) : PlanLimits :=
  ⟨t.storageLimitBytes, t.apiCallsLimit, t.documentLimit⟩

def Plan.limits (p : Plan) : PlanLimits :=
  ⟨p.storageLimitBytes, p.apiCallsLimit, p.documentLimit⟩

/-- The limits are those of `PLANS` for the plan type. -/
def UserQuota.OnPlan (q : UserQuota) : Prop := PLANS q.planType = some q.limits

instance (q : UserQuota) : Decidable q.OnPlan := by
  unfold UserQuota.OnPlan
  infer_instance

/-- The limits are those of the plan row; without one, those of the free plan. -/
def Tenant.OnPlan (plans : Plans) (t : Tenant) : Prop :=
  match t.planId with
  | none => t.limits = freePlan
  | some id => ∃ plan ∈ plans.find? id, t.limits = plan.limits ∧ t.maxMembers = plan.maxMembers

instance (plans : Plans) (t : Tenant) : Decidable (t.OnPlan plans) := by
  unfold Tenant.OnPlan
  split <;> infer_instance

def Db.LimitsOnPlan (db : Db) : Prop :=
  (∀ q ∈ db.users.rows, q.OnPlan) ∧ ∀ t ∈ db.tenants.rows, t.OnPlan db.plans

instance (db : Db) : Decidable db.LimitsOnPlan := by
  unfold Db.LimitsOnPlan
  infer_instance

/-- The event takes no path that leaves this user with another plan's limits: an expired trial
converts, and only a free subscription is cleaned up. -/
def BillingEvent.keepsUser (q : UserQuota) : BillingEvent → Prop
  | .processTrialEnd _ answer now =>
    q.trialExpired now = true → UserQuota.converts q.stripeSubscriptionId answer = true
  | .cleanupStaleSubscription _ answer =>
    q.mayBeStale = true → (answer = .subscription .canceled ∨ answer = .invalidRequest) →
      q.planType = "free"
  | _ => True

/-- The event takes no path that leaves this organization with another plan's limits: a new plan
has the same number of members, and the plan is never dropped. -/
def BillingEvent.keepsTenant (plans : Plans) (t : Tenant) : BillingEvent → Prop
  | .subscriptionCreated s | .subscriptionUpdated s =>
    ∀ plan ∈ s.planSlug.bind (planBySlug plans), t.maxMembers = plan.maxMembers
  | .subscriptionDeleted _ => False
  | .startTrial _ planSlug _ =>
    ∀ plan ∈ (planBySlug plans planSlug).filter (·.isActive), t.maxMembers = plan.maxMembers
  | .endTrial _ convertToPaid => convertToPaid = true
  | .processTrialEnd _ answer now =>
    t.trialExpired now = true → UserQuota.converts t.stripeSubscriptionId answer = true
  | _ => True

def BillingEvent.keepsRow (plans : Plans) (e : BillingEvent) : BillingRow → Prop
  | .user q => e.keepsUser q
  | .tenant t => e.keepsTenant plans t

def keepsLimits (db : Db) (e : BillingEvent) : Prop :=
  ∀ entity ∈ e.entity db, ∀ r ∈ db.billingRow entity, e.keepsRow db.plans r

instance (plans : Plans) (e : BillingEvent) (r : BillingRow) : Decidable (e.keepsRow plans r) := by
  unfold BillingEvent.keepsRow BillingEvent.keepsUser BillingEvent.keepsTenant
  repeat' split
  all_goals infer_instance

instance (db : Db) (e : BillingEvent) : Decidable (keepsLimits db e) := by
  unfold keepsLimits
  infer_instance

/-! ## Users -/

theorem upgradePlan_onPlan {q q' : UserQuota} {planType : String} {expiresAt : Option Time}
    (h : q.upgradePlan planType expiresAt = some q') : q'.OnPlan := by
  obtain ⟨plan, hplan, rfl⟩ := upgradePlan_spec h
  exact hplan

/-- Only the free plan has the limits of the free plan. -/
theorem free_of_limits {planType : String} (h : PLANS planType = some freePlan) :
    planType = "free" := by
  unfold PLANS at h
  split at h
  · rfl
  all_goals exact absurd h (by decide)

/-- The trial task writes limits that no plan has. -/
theorem processUserTrialEnd_onPlan {answer : StripeAnswer} {q : UserQuota} (hq : q.OnPlan) :
    (q.processUserTrialEnd answer).OnPlan ↔
      UserQuota.converts q.stripeSubscriptionId answer = true := by
  simp only [UserQuota.processUserTrialEnd]
  split
  · rename_i converted
    exact iff_of_true hq converted
  · rename_i ended
    have other : PLANS "free" ≠ some ⟨gigabytes 5, 1000, 100⟩ := by decide
    exact iff_of_false other ended

/-- The cleanup writes the plan and not the limits. -/
theorem cleanupStaleSubscription_onPlan {answer : StripeAnswer} {q : UserQuota} (hq : q.OnPlan)
    (selected : q.mayBeStale = true) :
    (q.cleanupStaleSubscription answer).OnPlan ↔
      ((answer = .subscription .canceled ∨ answer = .invalidRequest) → q.planType = "free") := by
  have dropped : PLANS "free" = some q.limits ↔ q.planType = "free" := by
    constructor
    · intro h
      have : q.limits = freePlan := (Option.some.inj h).symm
      exact free_of_limits (this ▸ hq)
    · intro h
      rw [← h]
      exact hq
  cases answer with
  | subscription status =>
    simp only [UserQuota.cleanupStaleSubscription]
    by_cases canceled : status = .canceled
    · have differs : status ≠ q.subscriptionStatus := by
        rintro rfl
        simp [UserQuota.mayBeStale, canceled] at selected
      rw [if_pos differs, if_pos canceled]
      simp only [canceled, true_or, true_implies]
      exact dropped
    · refine iff_of_true ?_ (by simp [canceled])
      rw [if_neg canceled]
      split <;> exact hq
  | invalidRequest =>
    simp only [or_true, true_implies]
    exact dropped
  | unavailable => exact iff_of_true hq (by simp)

/-- A user's limits stay those of the plan exactly when the event takes none of the paths that
`keepsUser` excludes. -/
theorem onUser_onPlan_iff {e : BillingEvent} {q q' : UserQuota} (h : e.onUser q = some q')
    (hq : q.OnPlan) : q'.OnPlan ↔ e.keepsUser q := by
  cases e with
  | subscriptionCreated s =>
    simp only [BillingEvent.onUser, UserQuota.handleSubscriptionCreated] at h
    refine iff_of_true ?_ trivial
    split at h
    · exact upgradePlan_onPlan h
    · cases h
      exact hq
  | subscriptionUpdated s =>
    simp only [BillingEvent.onUser, UserQuota.handleSubscriptionUpdated] at h
    refine iff_of_true ?_ trivial
    split at h
    · split at h
      · exact upgradePlan_onPlan h
      · cases h
        exact hq
    · cases h
      exact hq
  | subscriptionDeleted s =>
    simp only [BillingEvent.onUser, UserQuota.handleSubscriptionDeleted] at h
    exact iff_of_true (upgradePlan_onPlan h) trivial
  | invoicePaid customer =>
    cases h
    refine iff_of_true ?_ trivial
    unfold UserQuota.handleInvoicePaid
    split <;> exact hq
  | paymentFailed customer attemptCount =>
    cases h
    refine iff_of_true ?_ trivial
    unfold UserQuota.handlePaymentFailed
    split <;> exact hq
  | startTrial entity planSlug now =>
    simp only [BillingEvent.onUser, UserQuota.startTrial, Option.ite_none_left_eq_some] at h
    exact iff_of_true (upgradePlan_onPlan h.2) trivial
  | endTrial entity convertToPaid =>
    simp only [BillingEvent.onUser, UserQuota.endTrial] at h
    refine iff_of_true ?_ trivial
    split at h
    · cases h
      exact hq
    · exact upgradePlan_onPlan h
  | processTrialEnd entity answer now =>
    simp only [BillingEvent.onUser] at h
    simp only [BillingEvent.keepsUser]
    split at h
    · rename_i expired
      cases h
      rw [processUserTrialEnd_onPlan hq]
      simp only [expired, true_implies]
    · rename_i running
      cases h
      exact iff_of_true hq fun expired => absurd expired running
  | cleanupStaleSubscription userId answer =>
    simp only [BillingEvent.onUser] at h
    simp only [BillingEvent.keepsUser]
    split at h
    · rename_i selected
      cases h
      rw [cleanupStaleSubscription_onPlan hq selected]
      simp only [selected, true_implies]
    · rename_i other
      cases h
      exact iff_of_true hq fun selected => absurd selected other
  | upgradePlan userId planType expiresAt => exact iff_of_true (upgradePlan_onPlan h) trivial
  | applyPlanToTenant tenantId planId => cases h

/-! ## Organizations -/

theorem planBySlug_found {plans : Plans} {slug : String} {plan : Plan}
    (h : planBySlug plans slug = some plan) : plans.find? plan.id = some plan :=
  Table.find?_of_mem (List.mem_of_find?_eq_some h)

/-- A new plan copies three limits; the number of members stays. -/
theorem takePlan_onPlan {plans : Plans} {plan : Plan} (t : Tenant)
    (found : plans.find? plan.id = some plan) :
    (t.takePlan plan).OnPlan plans ↔ t.maxMembers = plan.maxMembers := by
  constructor
  · rintro ⟨plan', found', -, members⟩
    cases found.symm.trans found'
    exact members
  · intro members
    exact ⟨plan, found, rfl, members⟩

/-- Without a plan the limits are not those of the free plan. -/
theorem dropPlan_onPlan (plans : Plans) (t : Tenant) : ¬(t.dropPlan).OnPlan plans := by
  have other : (⟨gigabytes 5, 1000, 100⟩ : PlanLimits) ≠ freePlan := by decide
  exact other

/-- Only the plan, the limits and the number of members matter. -/
theorem Tenant.OnPlan.congr {plans : Plans} {t t' : Tenant} (h : t.OnPlan plans)
    (plan : t'.planId = t.planId) (limits : t'.limits = t.limits)
    (members : t'.maxMembers = t.maxMembers) : t'.OnPlan plans := by
  unfold Tenant.OnPlan at h ⊢
  rw [plan, limits, members]
  exact h

/-- A plan that stays keeps the number of members. -/
theorem Tenant.OnPlan.maxMembers {plans : Plans} {t : Tenant} (h : t.OnPlan plans) {plan : Plan}
    (found : plans.find? plan.id = some plan) (same : t.planId = some plan.id) :
    t.maxMembers = plan.maxMembers := by
  unfold Tenant.OnPlan at h
  rw [same] at h
  obtain ⟨plan', found', -, members⟩ := h
  cases found.symm.trans found'
  exact members

section
variable {plans : Plans} {t : Tenant}

theorem handleSubscriptionCreated_onPlan (ht : t.OnPlan plans) (s : Subscription) :
    (t.handleSubscriptionCreated plans s).OnPlan plans ↔
      ∀ plan ∈ s.planSlug.bind (planBySlug plans), t.maxMembers = plan.maxMembers := by
  simp only [Tenant.handleSubscriptionCreated, Tenant.takeSubscription]
  split
  · rename_i plan known
    obtain ⟨slug, -, found⟩ := Option.bind_eq_some_iff.mp known
    simp only [known, Option.mem_some_iff, forall_eq']
    rw [takePlan_onPlan _ (planBySlug_found found)]
    split <;> rfl
  · rename_i unknown
    refine iff_of_true ?_ (by simp [unknown])
    split <;> exact ht.congr rfl rfl rfl

theorem handleSubscriptionUpdated_onPlan (ht : t.OnPlan plans) (s : Subscription) :
    (t.handleSubscriptionUpdated plans s).OnPlan plans ↔
      ∀ plan ∈ s.planSlug.bind (planBySlug plans), t.maxMembers = plan.maxMembers := by
  simp only [Tenant.handleSubscriptionUpdated]
  split
  · rename_i plan known
    obtain ⟨slug, -, found⟩ := Option.bind_eq_some_iff.mp known
    simp only [known, Option.mem_some_iff, forall_eq']
    split
    · rw [takePlan_onPlan _ (planBySlug_found found)]
      rfl
    · rename_i same
      simp only [ne_eq, not_not] at same
      exact iff_of_true (ht.congr rfl rfl rfl) (ht.maxMembers (planBySlug_found found) same)
  · rename_i unknown
    exact iff_of_true (ht.congr rfl rfl rfl) (by simp [unknown])

theorem startTrial_onPlan (ht : t.OnPlan plans) {planSlug : String} {now : Time} {t' : Tenant}
    (h : t.startTrial plans planSlug now = some t') : t'.OnPlan plans ↔
      ∀ plan ∈ (planBySlug plans planSlug).filter (·.isActive), t.maxMembers = plan.maxMembers := by
  simp only [Tenant.startTrial, Option.ite_none_left_eq_some] at h
  obtain ⟨-, h⟩ := h
  split at h
  · rename_i plan known
    cases h
    obtain ⟨found, -⟩ := Option.filter_eq_some_iff.mp known
    simp only [known, Option.mem_some_iff, forall_eq']
    rw [takePlan_onPlan _ (planBySlug_found found)]
  · rename_i unknown
    cases h
    exact iff_of_true (ht.congr rfl rfl rfl) (by simp [unknown])

theorem endTrial_onPlan (ht : t.OnPlan plans) (convertToPaid : Bool) :
    (t.endTrial convertToPaid).OnPlan plans ↔ convertToPaid = true := by
  unfold Tenant.endTrial
  split
  · rename_i converted
    exact iff_of_true (ht.congr rfl rfl rfl) converted
  · rename_i ended
    exact iff_of_false (dropPlan_onPlan plans _) ended

theorem processTenantTrialEnd_onPlan (ht : t.OnPlan plans) (answer : StripeAnswer) :
    (t.processTenantTrialEnd answer).OnPlan plans ↔
      UserQuota.converts t.stripeSubscriptionId answer = true := by
  simp only [Tenant.processTenantTrialEnd]
  split
  · rename_i converted
    exact iff_of_true (ht.congr rfl rfl rfl) converted
  · rename_i ended
    exact iff_of_false (dropPlan_onPlan plans _) ended

end

theorem onTenant_onPlan_iff {plans : Plans} {e : BillingEvent} {t t' : Tenant}
    (h : e.onTenant plans t = some t') (ht : t.OnPlan plans) :
    t'.OnPlan plans ↔ e.keepsTenant plans t := by
  cases e with
  | subscriptionCreated s =>
    cases h
    exact handleSubscriptionCreated_onPlan ht s
  | subscriptionUpdated s =>
    cases h
    exact handleSubscriptionUpdated_onPlan ht s
  | subscriptionDeleted s =>
    cases h
    exact iff_of_false (dropPlan_onPlan plans _) id
  | invoicePaid customer =>
    cases h
    refine iff_of_true ?_ trivial
    unfold Tenant.handleInvoicePaid
    split <;> exact ht.congr rfl rfl rfl
  | paymentFailed customer attemptCount =>
    cases h
    refine iff_of_true ?_ trivial
    unfold Tenant.handlePaymentFailed
    split <;> exact ht.congr rfl rfl rfl
  | startTrial entity planSlug now => exact startTrial_onPlan ht h
  | endTrial entity convertToPaid =>
    cases h
    exact endTrial_onPlan ht convertToPaid
  | processTrialEnd entity answer now =>
    simp only [BillingEvent.onTenant] at h
    simp only [BillingEvent.keepsTenant]
    split at h
    · rename_i expired
      cases h
      rw [processTenantTrialEnd_onPlan ht]
      simp only [expired, true_implies]
    · rename_i running
      cases h
      exact iff_of_true ht fun expired => absurd expired running
  | cleanupStaleSubscription userId answer => cases h
  | upgradePlan userId planType expiresAt => cases h
  | applyPlanToTenant tenantId planId =>
    obtain ⟨plan, hplan, rfl⟩ := Option.map_eq_some_iff.mp h
    obtain ⟨found, -⟩ := Option.filter_eq_some_iff.mp hplan
    have key := (Table.find?_eq_some.mp found).2
    exact iff_of_true ⟨plan, by rw [key]; exact found, rfl, rfl⟩ trivial

/-! ## Runs -/

def BillingRow.OnPlan (plans : Plans) : BillingRow → Prop
  | .user q => q.OnPlan
  | .tenant t => t.OnPlan plans

theorem onRow_onPlan_iff {plans : Plans} {e : BillingEvent} {r r' : BillingRow}
    (h : e.onRow plans r = some r') (hr : r.OnPlan plans) :
    r'.OnPlan plans ↔ e.keepsRow plans r := by
  cases r with
  | user q =>
    obtain ⟨q', hq', rfl⟩ := Option.map_eq_some_iff.mp h
    exact onUser_onPlan_iff hq' hr
  | tenant t =>
    obtain ⟨t', ht', rfl⟩ := Option.map_eq_some_iff.mp h
    exact onTenant_onPlan_iff ht' hr

theorem limitsOnPlan_iff {db : Db} :
    db.LimitsOnPlan ↔ ∀ entity r, db.billingRow entity = some r → r.OnPlan db.plans := by
  constructor
  · rintro ⟨users, tenants⟩ entity r h
    cases entity with
    | user userId =>
      obtain ⟨q, hq, rfl⟩ := Option.map_eq_some_iff.mp h
      exact users q (Table.find?_eq_some.mp hq).1
    | tenant id =>
      obtain ⟨t, ht, rfl⟩ := Option.map_eq_some_iff.mp h
      exact tenants t (Table.find?_eq_some.mp ht).1
  · intro h
    constructor
    · intro q hq
      exact h (.user q.userId) (.user q) (by rw [Db.billingRow, Table.find?_of_mem hq]; rfl)
    · intro t ht
      exact h (.tenant t.id) (.tenant t) (by rw [Db.billingRow, Table.find?_of_mem ht]; rfl)

/-- A new quota has the limits of the free plan. -/
theorem freeQuotaValues_onPlan (userId : String) : (freeQuotaValues userId).OnPlan := rfl

/-- One step keeps the limits exactly when its event takes none of the excluded paths. -/
theorem billingStep_onPlan_iff {db db' : Db} {e : BillingEvent} (hs : db.LimitsOnPlan)
    (h : db.billingStep e = some db') : db'.LimitsOnPlan ↔ keepsLimits db e := by
  rw [limitsOnPlan_iff] at hs ⊢
  constructor
  · intro hs' entity about r found
    obtain ⟨other, -⟩ | ⟨-, r', r'', found', stepped, set⟩ := billingStep_row h entity
    · exact absurd about other
    · obtain old | ⟨missing, -⟩ := prepare_row found'
      · cases old.symm.trans found
        exact (onRow_onPlan_iff stepped (hs entity r found)).mp
          (billingStep_plans h ▸ hs' entity r'' set)
      · cases missing.symm.trans found
  · intro keeps entity r' found'
    rw [billingStep_plans h]
    obtain ⟨-, same⟩ | ⟨about, r, r'', found, stepped, set⟩ := billingStep_row h entity
    · exact hs entity r' (same.symm.trans found')
    · cases set.symm.trans found'
      obtain old | ⟨-, userId, planType, expiresAt, rfl, rfl⟩ := prepare_row found
      · exact (onRow_onPlan_iff stepped (hs entity r old)).mpr (keeps entity about r old)
      · exact (onRow_onPlan_iff stepped (freeQuotaValues_onPlan userId)).mpr trivial

/-- In every run of events that take none of the excluded paths, the limits of every user and
organization are those of the plan on record. -/
theorem limits_follow_plan {db db' : Db} (hs : db.LimitsOnPlan)
    (run : Runs.Reaches Db.billingStep keepsLimits db db') : db'.LimitsOnPlan :=
  run.invariant (fun _ _ _ hs keeps h => (billingStep_onPlan_iff hs h).mpr keeps) hs

/-- The plan of an organization. -/
def teamPlan : Plan where
  id := uuid "team"
  slug := "team"
  storageLimitBytes := gigabytes 50
  apiCallsLimit := 50000
  documentLimit := 2000
  isTenantPlan := true
  maxMembers := 10
  linkedTenantId := none
  isActive := true
  trialDays := some 14

/-- An organization that pays as customer `cus_acme`. -/
def payingTenant : Tenant where
  id := uuid "acme"
  name := "Acme"
  planId := none
  status := .active
  trialStartAt := none
  trialEndsAt := none
  hasUsedTrial := false
  stripeCustomerId := some "cus_acme"
  stripeSubscriptionId := none
  storageLimitBytes := gigabytes 5
  storageUsedBytes := 0
  apiCallsLimit := 1000
  apiCallsUsed := 0
  documentLimit := 1000
  documentCount := 0
  maxMembers := 5

/-- A user who pays as customer `cus_ana`. -/
def payingUser : UserQuota := { freeQuotaValues "ana" with stripeCustomerId := some "cus_ana" }

/-- Both of them, on the free plan. -/
def payingDb : Db :=
  { Db.empty with
    users := ⟨[payingUser], by decide⟩
    tenants := ⟨[payingTenant], by decide⟩
    plans := ⟨[teamPlan], by decide⟩ }

def subscription (id customer : String) (status : SubscriptionStatus) (planSlug : Option String) :
    Subscription :=
  ⟨id, customer, status, false, none, none, none, planSlug⟩

/-- An organization gets a plan and an update of its subscription, a user a trial and a payment. -/
theorem limits_follow_plan_after_trial : ∃ db,
    Runs.Reaches Db.billingStep keepsLimits payingDb db ∧ db.LimitsOnPlan ∧
      (db.users.find? "ana").any (fun q => q.planType = "pro" ∧ q.hasUsedTrial) = true := by
  obtain ⟨db, run, paid⟩ := Runs.exists_reaches_of_runAll Db.billingStep keepsLimits payingDb
    [.applyPlanToTenant (uuid "acme") (uuid "team"),
     .subscriptionUpdated (subscription "sub_1" "cus_acme" .active (some "team")),
     .startTrial (.user "ana") "pro" 0,
     .invoicePaid "cus_ana"]
    (fun db => (db.users.find? "ana").any (fun q => q.planType = "pro" ∧ q.hasUsedTrial) = true)
    (by decide)
  exact ⟨db, run, limits_follow_plan (by decide) run, paid⟩

/-- A user's trial ends without a subscription, and an organization's subscription is deleted. -/
theorem limits_leave_plan : Db.LimitsOnPlan payingDb ∧
    ∃ db, Runs.Reaches Db.billingStep Runs.always payingDb db ∧
      (∃ q ∈ db.users.rows, ¬q.OnPlan) ∧ ∃ t ∈ db.tenants.rows, ¬t.OnPlan db.plans := by
  refine ⟨by decide, Runs.exists_reaches_of_runAll Db.billingStep Runs.always payingDb
    [.startTrial (.user "ana") "pro" 0,
     .processTrialEnd (.user "ana") .unavailable (days 15),
     .subscriptionDeleted (subscription "sub_1" "cus_acme" .canceled none)] _ (by decide)⟩

end GigaPdf
