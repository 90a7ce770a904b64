import GigaPdf.Billing.Limits

/-!
# Replacing a subscription

The handlers find a user or an organization by the customer of an event, and never compare the
subscription of the event with the one on record. After any deliveries the row shows the event
that came last.
-/

namespace GigaPdf

inductive SubscriptionEvent
  | created (s : Subscription)
  | updated (s : Subscription)
  | deleted (s : Subscription)
deriving DecidableEq

namespace SubscriptionEvent

def subscription : SubscriptionEvent → Subscription
  | created s | updated s | deleted s => s

def billing : SubscriptionEvent → BillingEvent
  | created s => .subscriptionCreated s
  | updated s => .subscriptionUpdated s
  | deleted s => .subscriptionDeleted s

/-- The application has the plan that the event carries. -/
def PlanKnown (plans : Plans) : BillingEntity → SubscriptionEvent → Prop
  | _, deleted _ => True
  | .user _, created s | .user _, updated s => (s.planSlug.bind PLANS).isSome = true
  | .tenant _, created s | .tenant _, updated s =>
    (s.planSlug.bind (planBySlug plans)).isSome = true

end SubscriptionEvent

/-- The events in the order in which they arrive. -/
def Db.deliverAll (db : Db) (events : List SubscriptionEvent) : Db :=
  events.foldl (fun db e => db.deliver e.billing) db

/-- Status, plan and limits are those that the event carries. -/
def UserQuota.Shows (q : UserQuota) : SubscriptionEvent → Prop
  | .created s | .updated s =>
    q.subscriptionStatus = s.status ∧ s.planSlug = some q.planType ∧
      PLANS q.planType = some q.limits
  | .deleted _ => q.subscriptionStatus = .canceled ∧ q.planType = "free" ∧ q.limits = freePlan

instance (q : UserQuota) (e : SubscriptionEvent) : Decidable (q.Shows e) := by
  unfold UserQuota.Shows
  split <;> infer_instance

/-- A subscription status without a status of the organization shows nothing of it. -/
def Tenant.Shows (plans : Plans) (t : Tenant) : SubscriptionEvent → Prop
  | .created s =>
    t.status = (if s.status = .trialing then .trial else .active) ∧
      ∃ plan ∈ s.planSlug.bind (planBySlug plans), t.planId = some plan.id ∧ t.limits = plan.limits
  | .updated s =>
    (∀ status ∈ Tenant.updatedStatus s.status, t.status = status) ∧
      ∃ plan ∈ s.planSlug.bind (planBySlug plans), t.planId = some plan.id ∧ t.limits = plan.limits
  | .deleted _ => t.status = .cancelled ∧ t.planId = none ∧ t.limits = ⟨gigabytes 5, 1000, 100⟩

def BillingRow.Shows (plans : Plans) (e : SubscriptionEvent) : BillingRow → Prop
  | .user q => q.Shows e
  | .tenant t => t.Shows plans e

/-- The limits are those of the plan on record, if there is one; the number of members aside. -/
def BillingRow.LimitsCopied (plans : Plans) : BillingRow → Prop
  | .user q => q.OnPlan
  | .tenant t => ∀ id plan, t.planId = some id → plans.find? id = some plan →
      t.limits = plan.limits

/-! ## One event -/

theorem takePlan_copied {plans : Plans} {plan : Plan} (t : Tenant)
    (found : plans.find? plan.id = some plan) :
    (BillingRow.tenant (t.takePlan plan)).LimitsCopied plans := by
  intro id other same found'
  cases same
  cases found.symm.trans found'
  rfl

/-- Whatever an event does, the limits stay those of the plan on record. -/
theorem onRow_copied {plans : Plans} {e : SubscriptionEvent} {r r' : BillingRow}
    (copied : r.LimitsCopied plans) (h : e.billing.onRow plans r = some r') :
    r'.LimitsCopied plans := by
  cases r with
  | user q =>
    obtain ⟨q', hq', rfl⟩ := Option.map_eq_some_iff.mp h
    refine (onUser_onPlan_iff hq' copied).mpr ?_
    cases e <;> trivial
  | tenant t =>
    obtain ⟨t', ht', rfl⟩ := Option.map_eq_some_iff.mp h
    cases e with
    | created s =>
      cases ht'
      simp only [Tenant.handleSubscriptionCreated, Tenant.takeSubscription]
      split
      · rename_i plan known
        obtain ⟨slug, -, found⟩ := Option.bind_eq_some_iff.mp known
        exact takePlan_copied _ (planBySlug_found found)
      · split <;> exact copied
    | updated s =>
      cases ht'
      simp only [Tenant.handleSubscriptionUpdated]
      split
      · rename_i plan known
        obtain ⟨slug, -, found⟩ := Option.bind_eq_some_iff.mp known
        split
        · exact takePlan_copied _ (planBySlug_found found)
        · exact copied
      · exact copied
    | deleted s =>
      cases ht'
      intro id plan none_on_record
      cases none_on_record

/-- A user's plan change to a plan of `PLANS` succeeds. -/
theorem upgradePlan_of_known {planType : String} {plan : PlanLimits}
    (known : PLANS planType = some plan) (q : UserQuota) (expiresAt : Option Time) :
    ∃ q', q.upgradePlan planType expiresAt = some q' ∧
      q'.subscriptionStatus = q.subscriptionStatus ∧ q'.planType = planType ∧
      PLANS planType = some q'.limits := by
  refine ⟨_, congrArg (Option.map _) known, rfl, rfl, known⟩

theorem onUser_shows {e : SubscriptionEvent} {q : UserQuota} (copied : q.OnPlan)
    (known : ∀ s, e = .created s ∨ e = .updated s → (s.planSlug.bind PLANS).isSome = true) :
    ∃ q', e.billing.onUser q = some q' ∧ q'.Shows e := by
  have plan_of : ∀ s, e = .created s ∨ e = .updated s →
      ∃ slug plan, s.planSlug = some slug ∧ PLANS slug = some plan := by
    intro s hs
    obtain ⟨plan, hplan⟩ := Option.isSome_iff_exists.mp (known s hs)
    obtain ⟨slug, hslug, hplan⟩ := Option.bind_eq_some_iff.mp hplan
    exact ⟨slug, plan, hslug, hplan⟩
  cases e with
  | created s =>
    obtain ⟨slug, plan, hslug, hplan⟩ := plan_of s (.inl rfl)
    obtain ⟨q', hq', status, planType, limits⟩ :=
      upgradePlan_of_known hplan (q.takeSubscription s) none
    refine ⟨q', ?_, status, hslug.trans (by rw [planType]), by rw [planType]; exact limits⟩
    simp only [SubscriptionEvent.billing, BillingEvent.onUser, UserQuota.handleSubscriptionCreated,
      hslug]
    exact hq'
  | updated s =>
    obtain ⟨slug, plan, hslug, hplan⟩ := plan_of s (.inr rfl)
    simp only [SubscriptionEvent.billing, BillingEvent.onUser, UserQuota.handleSubscriptionUpdated,
      hslug]
    by_cases changed : slug ≠ q.planType
    · obtain ⟨q', hq', status, planType, limits⟩ :=
        upgradePlan_of_known hplan (q.syncSubscription s) none
      rw [if_pos changed]
      exact ⟨q', hq', status, hslug.trans (by rw [planType]), by rw [planType]; exact limits⟩
    · rw [if_neg changed]
      simp only [ne_eq, not_not] at changed
      exact ⟨_, rfl, rfl, hslug.trans (congrArg some changed), copied⟩
  | deleted s =>
    have free : PLANS "free" = some freePlan := by decide
    obtain ⟨q', hq', status, planType, limits⟩ := upgradePlan_of_known free
      { q with
        subscriptionStatus := .canceled
        planType := "free"
        stripeSubscriptionId := none
        currentPeriodEnd := none
        cancelAtPeriodEnd := false } none
    exact ⟨q', hq', status, planType, (Option.some.inj (free.symm.trans limits)).symm⟩

theorem onTenant_shows {plans : Plans} {e : SubscriptionEvent} {t : Tenant}
    (copied : (BillingRow.tenant t).LimitsCopied plans)
    (known : ∀ s, e = .created s ∨ e = .updated s →
      (s.planSlug.bind (planBySlug plans)).isSome = true) :
    ∃ t', e.billing.onTenant plans t = some t' ∧ t'.Shows plans e := by
  cases e with
  | created s =>
    obtain ⟨plan, hplan⟩ := Option.isSome_iff_exists.mp (known s (.inl rfl))
    refine ⟨_, rfl, ?_, plan, hplan, ?_⟩
    · simp only [Tenant.handleSubscriptionCreated, hplan, Tenant.takePlan, Tenant.takeSubscription]
      split <;> rfl
    · simp only [Tenant.handleSubscriptionCreated, hplan]
      exact ⟨rfl, rfl⟩
  | updated s =>
    obtain ⟨plan, hplan⟩ := Option.isSome_iff_exists.mp (known s (.inr rfl))
    obtain ⟨slug, -, found⟩ := Option.bind_eq_some_iff.mp hplan
    refine ⟨_, rfl, fun status hstatus => ?_, plan, hplan, ?_⟩
    · have set : (t.syncSubscription s).status = status := by
        simp only [Tenant.syncSubscription, Option.mem_def.mp hstatus, Option.getD_some]
      simp only [Tenant.handleSubscriptionUpdated, hplan]
      split <;> exact set
    · simp only [Tenant.handleSubscriptionUpdated, hplan]
      split
      · exact ⟨rfl, rfl⟩
      · rename_i same
        simp only [ne_eq, not_not] at same
        exact ⟨same, copied plan.id plan same (planBySlug_found found)⟩
  | deleted s => exact ⟨_, rfl, rfl, rfl, rfl⟩

/-- After an event whose plan is known the row shows this event. -/
theorem onRow_shows {plans : Plans} {entity : BillingEntity} {e : SubscriptionEvent}
    {r : BillingRow} (key : r.identity.1 = entity) (copied : r.LimitsCopied plans)
    (known : e.PlanKnown plans entity) :
    ∃ r', e.billing.onRow plans r = some r' ∧ r'.Shows plans e := by
  subst key
  cases r with
  | user q =>
    obtain ⟨q', hq', shows⟩ := onUser_shows (e := e) copied (by
      rintro s (rfl | rfl) <;> exact known)
    exact ⟨.user q', congrArg (Option.map _) hq', shows⟩
  | tenant t =>
    obtain ⟨t', ht', shows⟩ := onTenant_shows (e := e) copied (by
      rintro s (rfl | rfl) <;> exact known)
    exact ⟨.tenant t', congrArg (Option.map _) ht', shows⟩

/-! ## Any order of events -/

/-- What deliveries do to the row of their customer: an event that fails changes nothing. -/
def replay (plans : Plans) (events : List SubscriptionEvent) (r : BillingRow) : BillingRow :=
  events.foldl (fun r e => (e.billing.onRow plans r).getD r) r

/-- What an event preserves, any deliveries preserve. -/
theorem replay_invariant {plans : Plans} {inv : BillingRow → Prop}
    (preserves : ∀ (e : SubscriptionEvent) r r', inv r → e.billing.onRow plans r = some r' → inv r')
    (events : List SubscriptionEvent) {r : BillingRow} (hr : inv r) :
    inv (replay plans events r) := by
  induction events generalizing r with
  | nil => exact hr
  | cons e rest ih =>
    have next : inv ((e.billing.onRow plans r).getD r) := by
      cases h : e.billing.onRow plans r with
      | none => exact hr
      | some r' => exact preserves e r r' hr h
    exact ih next

theorem deliver_customer (db : Db) (e : BillingEvent) (customer : String) :
    (db.deliver e).getBillingEntityFromCustomer customer =
      db.getBillingEntityFromCustomer customer := by
  unfold Db.deliver
  cases h : db.billingStep e with
  | none => rfl
  | some db' => exact billingStep_customer h customer

theorem deliver_plans (db : Db) (e : BillingEvent) : (db.deliver e).plans = db.plans := by
  unfold Db.deliver
  cases h : db.billingStep e with
  | none => rfl
  | some db' => exact billingStep_plans h

theorem deliver_row {db : Db} {e : SubscriptionEvent} {entity : BillingEntity} {r : BillingRow}
    (owner : db.getBillingEntityFromCustomer e.subscription.customer = some entity)
    (found : db.billingRow entity = some r) :
    (db.deliver e.billing).billingRow entity = some ((e.billing.onRow db.plans r).getD r) := by
  have about : e.billing.entity db = some entity := by cases e <;> exact owner
  have step : db.billingStep e.billing = (e.billing.onRow db.plans r).map db.setPlan := by
    have prepared : e.billing.prepare db = db := by cases e <;> rfl
    simp only [Db.billingStep, prepared, about, found, Option.bind_some]
  unfold Db.deliver
  rw [step]
  cases h : e.billing.onRow db.plans r with
  | none => exact found
  | some r' =>
    exact (billingRow_setPlan found (onRow_identity h) entity).trans (if_pos rfl)

/-- After any deliveries to a customer the row is the replay of these events. -/
theorem deliverAll_row {db : Db} {customer : String} {entity : BillingEntity} {r : BillingRow}
    (owner : db.getBillingEntityFromCustomer customer = some entity)
    (found : db.billingRow entity = some r) (events : List SubscriptionEvent)
    (same : ∀ e ∈ events, e.subscription.customer = customer) :
    (db.deliverAll events).billingRow entity = some (replay db.plans events r) := by
  induction events generalizing db r with
  | nil => exact found
  | cons e rest ih =>
    have mine := same e List.mem_cons_self
    have next := ih ((deliver_customer db e.billing customer).trans owner)
      (deliver_row (mine ▸ owner) found) fun x hx => same x (List.mem_cons_of_mem e hx)
    rwa [deliver_plans] at next

def olderSubscription : Subscription := subscription "sub_1" "cus_ana" .active (some "starter")

def newerSubscription : Subscription := subscription "sub_2" "cus_ana" .active (some "pro")

/-- The user has replaced the older subscription by the newer one. -/
def replacedDb : Db :=
  payingDb.deliverAll [.created olderSubscription, .created newerSubscription]

end GigaPdf
