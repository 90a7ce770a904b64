import GigaPdf.Billing.Limits

/-!
# One trial

`start_trial` refuses an entity that has used its trial. Leaving the trial has to record it, and
several events that change the status do not.
-/

namespace GigaPdf

/-- The status says that a trial is running. -/
def BillingRow.inTrial : BillingRow → Bool
  | .user q => q.subscriptionStatus = .trialing
  | .tenant t => t.status = .trial

def BillingRow.hasUsedTrial : BillingRow → Bool
  | .user q => q.hasUsedTrial
  | .tenant t => t.hasUsedTrial

def Db.inTrial (db : Db) (entity : BillingEntity) : Bool :=
  (db.billingRow entity).any (·.inTrial)

def Db.hasUsedTrial (db : Db) (entity : BillingEntity) : Bool :=
  (db.billingRow entity).any (·.hasUsedTrial)

/-- A user whose trial runs stays in it, or leaves it by a path that records it. -/
def BillingEvent.recordsUser (q : UserQuota) : BillingEvent → Prop
  | .subscriptionCreated s | .subscriptionUpdated s => s.status = .trialing
  | .subscriptionDeleted _ => False
  | .paymentFailed _ attemptCount => attemptCount < 2
  | .cleanupStaleSubscription _ answer =>
    q.stripeSubscriptionId.isSome = true → answer = .subscription .trialing ∨ answer = .unavailable
  | _ => True

/-- An organization whose trial runs stays in it, or leaves it by a path that records it. -/
def BillingEvent.recordsTenant : BillingEvent → Prop
  | .subscriptionCreated s => s.status = .trialing
  | .subscriptionUpdated s => s.status ≠ .pastDue ∧ s.status ≠ .canceled
  | .subscriptionDeleted _ | .applyPlanToTenant _ _ => False
  | .paymentFailed _ attemptCount => attemptCount < 2
  | _ => True

def BillingEvent.recordsRow (e : BillingEvent) : BillingRow → Prop
  | .user q => e.recordsUser q
  | .tenant _ => e.recordsTenant

/-- The event does not take this entity out of a running trial without recording it. -/
def recordsTrial (entity : BillingEntity) (db : Db) (e : BillingEvent) : Prop :=
  e.entity db = some entity → ∀ r ∈ db.billingRow entity,
    r.inTrial = true → r.hasUsedTrial = false → e.recordsRow r

instance (q : UserQuota) : ∀ e : BillingEvent, Decidable (e.recordsUser q)
  | .subscriptionCreated _ | .subscriptionUpdated _ => inferInstanceAs (Decidable (_ = _))
  | .subscriptionDeleted _ => inferInstanceAs (Decidable False)
  | .paymentFailed _ _ => inferInstanceAs (Decidable (_ < _))
  | .cleanupStaleSubscription _ _ => inferInstanceAs (Decidable (_ → _))
  | .invoicePaid _ | .startTrial _ _ _ | .endTrial _ _ | .processTrialEnd _ _ _
  | .upgradePlan _ _ _ | .applyPlanToTenant _ _ => inferInstanceAs (Decidable True)

instance : ∀ e : BillingEvent, Decidable e.recordsTenant
  | .subscriptionCreated _ => inferInstanceAs (Decidable (_ = _))
  | .subscriptionUpdated _ => inferInstanceAs (Decidable (_ ∧ _))
  | .subscriptionDeleted _ | .applyPlanToTenant _ _ => inferInstanceAs (Decidable False)
  | .paymentFailed _ _ => inferInstanceAs (Decidable (_ < _))
  | .invoicePaid _ | .startTrial _ _ _ | .endTrial _ _ | .processTrialEnd _ _ _
  | .cleanupStaleSubscription _ _ | .upgradePlan _ _ _ => inferInstanceAs (Decidable True)

instance (e : BillingEvent) : ∀ r : BillingRow, Decidable (e.recordsRow r)
  | .user q => inferInstanceAs (Decidable (e.recordsUser q))
  | .tenant _ => inferInstanceAs (Decidable e.recordsTenant)

instance (entity : BillingEntity) (db : Db) (e : BillingEvent) :
    Decidable (recordsTrial entity db e) := by
  unfold recordsTrial
  infer_instance

/-! ## One event -/

/-- A used trial stays used, and a running one is not lost exactly when `records` holds. -/
structure TrialStep (r r' : BillingRow) (records : Prop) : Prop where
  stays : r.hasUsedTrial = true → r'.hasUsedTrial = true
  records : r.inTrial = true → r.hasUsedTrial = false →
    (r'.inTrial = true ∨ r'.hasUsedTrial = true ↔ records)

/-- An event that does not record anything decides by the status it leaves. -/
theorem TrialStep.of_status {r r' : BillingRow} {records : Prop}
    (same : r'.hasUsedTrial = r.hasUsedTrial)
    (status : r.inTrial = true → (r'.inTrial = true ↔ records)) : TrialStep r r' records where
  stays used := same.trans used
  records running unused := by
    rw [same, unused]
    simpa using status running

theorem TrialStep.kept {r r' : BillingRow} {records : Prop} (running : r'.inTrial = true)
    (same : r'.hasUsedTrial = r.hasUsedTrial) (holds : records) : TrialStep r r' records :=
  .of_status same fun _ => iff_of_true running holds

theorem TrialStep.lost {r r' : BillingRow} {records : Prop} (ended : r'.inTrial = false)
    (same : r'.hasUsedTrial = r.hasUsedTrial) (fails : ¬records) : TrialStep r r' records :=
  .of_status same fun _ => iff_of_false (by simp [ended]) fails

theorem TrialStep.of_used {r r' : BillingRow} {records : Prop} (used : r'.hasUsedTrial = true)
    (holds : records) : TrialStep r r' records where
  stays _ := used
  records _ _ := iff_of_true (.inr used) holds

theorem TrialStep.refl (r : BillingRow) {records : Prop} (holds : r.inTrial = true → records) :
    TrialStep r r records :=
  .of_status rfl fun running => iff_of_true running (holds running)

theorem upgradePlan_trial {q q' : UserQuota} {planType : String} {expiresAt : Option Time}
    (h : q.upgradePlan planType expiresAt = some q') :
    (BillingRow.user q').inTrial = (BillingRow.user q).inTrial ∧
      (BillingRow.user q').hasUsedTrial = (BillingRow.user q).hasUsedTrial := by
  obtain ⟨plan, -, rfl⟩ := upgradePlan_spec h
  exact ⟨rfl, rfl⟩

theorem inTrial_user {q : UserQuota} :
    (BillingRow.user q).inTrial = true ↔ q.subscriptionStatus = .trialing := by
  simp [BillingRow.inTrial]

theorem inTrial_tenant {t : Tenant} : (BillingRow.tenant t).inTrial = true ↔ t.status = .trial := by
  simp [BillingRow.inTrial]

/-- The status that `syncSubscription` tests is never both. -/
theorem syncSubscription_used (q : UserQuota) (s : Subscription) :
    (q.syncSubscription s).hasUsedTrial = q.hasUsedTrial := by
  cases h : s.status <;> simp [UserQuota.syncSubscription, h]

/-- A changed plan leaves the trial as the row before it had it. -/
theorem TrialStep.of_upgradePlan {r : BillingRow} {q q' : UserQuota} {planType : String}
    {expiresAt : Option Time} {records : Prop} (h : q.upgradePlan planType expiresAt = some q')
    (step : TrialStep r (.user q) records) : TrialStep r (.user q') records where
  stays used := (upgradePlan_trial h).2.trans (step.stays used)
  records running unused := by
    rw [(upgradePlan_trial h).1, (upgradePlan_trial h).2]
    exact step.records running unused

theorem cleanupStaleSubscription_trial {answer : StripeAnswer} {q : UserQuota}
    (selected : q.mayBeStale = true) :
    TrialStep (.user q) (.user (q.cleanupStaleSubscription answer))
      (q.stripeSubscriptionId.isSome = true →
        answer = .subscription .trialing ∨ answer = .unavailable) := by
  have subscribed : q.stripeSubscriptionId.isSome = true := by
    simp only [UserQuota.mayBeStale, Bool.and_eq_true] at selected
    exact selected.1
  simp only [subscribed, true_implies]
  cases answer with
  | subscription status =>
    simp only [UserQuota.cleanupStaleSubscription, StripeAnswer.subscription.injEq, reduceCtorEq,
      or_false]
    split
    · split
      · rename_i canceled
        refine .of_status rfl fun _ => ?_
        rw [inTrial_user, canceled]
      · exact .of_status rfl fun _ => inTrial_user
    · rename_i same
      simp only [ne_eq, not_not] at same
      exact .refl _ fun running => same.trans (inTrial_user.mp running)
  | invalidRequest =>
    exact .lost rfl rfl (by simp)
  | unavailable => exact .refl _ fun _ => .inr rfl

theorem onUser_trial {e : BillingEvent} {q q' : UserQuota} (h : e.onUser q = some q') :
    TrialStep (.user q) (.user q') (e.recordsUser q) := by
  cases e with
  | subscriptionCreated s =>
    have taken : TrialStep (.user q) (.user (q.takeSubscription s)) (s.status = .trialing) :=
      .of_status rfl fun _ => inTrial_user
    simp only [BillingEvent.onUser, UserQuota.handleSubscriptionCreated] at h
    split at h
    · exact .of_upgradePlan h taken
    · cases h
      exact taken
  | subscriptionUpdated s =>
    have synced : TrialStep (.user q) (.user (q.syncSubscription s)) (s.status = .trialing) :=
      .of_status (syncSubscription_used q s) fun _ => inTrial_user
    simp only [BillingEvent.onUser, UserQuota.handleSubscriptionUpdated] at h
    split at h
    · split at h
      · exact .of_upgradePlan h synced
      · cases h
        exact synced
    · cases h
      exact synced
  | subscriptionDeleted s =>
    simp only [BillingEvent.onUser, UserQuota.handleSubscriptionDeleted] at h
    exact .of_upgradePlan h (.lost rfl rfl id)
  | invoicePaid customer =>
    cases h
    unfold UserQuota.handleInvoicePaid
    split
    · exact .of_used rfl trivial
    · exact .refl _ fun _ => trivial
  | paymentFailed customer attemptCount =>
    cases h
    unfold UserQuota.handlePaymentFailed
    split
    · rename_i failed
      exact .lost rfl rfl (Nat.not_lt.mpr failed)
    · rename_i few
      exact .refl _ fun _ => Nat.not_le.mp few
  | startTrial entity planSlug now =>
    simp only [BillingEvent.onUser, UserQuota.startTrial, Option.ite_none_left_eq_some] at h
    exact .of_upgradePlan h.2 (.kept rfl rfl trivial)
  | endTrial entity convertToPaid =>
    simp only [BillingEvent.onUser, UserQuota.endTrial] at h
    split at h
    · cases h
      exact .of_used rfl trivial
    · exact .of_upgradePlan h (.of_used rfl trivial)
  | processTrialEnd entity answer now =>
    simp only [BillingEvent.onUser, UserQuota.processUserTrialEnd] at h
    split at h
    · cases h
      split <;> exact .of_used rfl trivial
    · cases h
      exact .refl _ fun _ => trivial
  | cleanupStaleSubscription userId answer =>
    simp only [BillingEvent.onUser] at h
    split at h
    · rename_i selected
      cases h
      exact cleanupStaleSubscription_trial selected
    · rename_i other
      cases h
      refine .refl _ fun running subscribed => absurd ?_ other
      simp [UserQuota.mayBeStale, inTrial_user.mp running, subscribed]
  | upgradePlan userId planType expiresAt =>
    exact .of_upgradePlan h (.refl _ fun _ => trivial)
  | applyPlanToTenant tenantId planId => cases h

/-- An update to `active` records the trial, one to a failed payment or to an end does not. -/
theorem tenant_syncSubscription_trial (t : Tenant) (s : Subscription) :
    TrialStep (.tenant t) (.tenant (t.syncSubscription s))
      (s.status ≠ .pastDue ∧ s.status ≠ .canceled) := by
  have used : s.status ≠ .active → (t.syncSubscription s).hasUsedTrial = t.hasUsedTrial := by
    intro other
    simp [Tenant.syncSubscription, other]
  have status : (t.syncSubscription s).status = (Tenant.updatedStatus s.status).getD t.status := rfl
  cases h : s.status with
  | active => exact .of_used (by simp [BillingRow.hasUsedTrial, Tenant.syncSubscription, h]) (by simp)
  | trialing =>
    rw [h] at status used
    exact .kept (inTrial_tenant.mpr status) (used (by simp)) (by simp)
  | pastDue | canceled =>
    rw [h] at status used
    exact .lost (by rw [BillingRow.inTrial, status]; rfl) (used (by simp)) (by simp)
  | none | incomplete | incompleteExpired | unpaid | paused =>
    rw [h] at status used
    refine .of_status (used (by simp)) fun running => iff_of_true ?_ (by simp)
    exact inTrial_tenant.mpr (status.trans (inTrial_tenant.mp running))

theorem onTenant_trial {plans : Plans} {e : BillingEvent} {t t' : Tenant}
    (h : e.onTenant plans t = some t') :
    TrialStep (.tenant t) (.tenant t') e.recordsTenant := by
  cases e with
  | subscriptionCreated s =>
    cases h
    simp only [Tenant.handleSubscriptionCreated, Tenant.takeSubscription]
    have taken : TrialStep (.tenant t) (.tenant (t.takeSubscription s)) (s.status = .trialing) := by
      unfold Tenant.takeSubscription
      split
      · rename_i trialing
        exact .kept rfl rfl trialing
      · rename_i other
        exact .lost rfl rfl other
    split <;> exact ⟨taken.stays, taken.records⟩
  | subscriptionUpdated s =>
    cases h
    have synced := tenant_syncSubscription_trial t s
    simp only [Tenant.handleSubscriptionUpdated]
    split
    · split <;> exact ⟨synced.stays, synced.records⟩
    · exact synced
  | subscriptionDeleted s =>
    cases h
    exact .lost rfl rfl id
  | invoicePaid customer =>
    cases h
    unfold Tenant.handleInvoicePaid
    split
    · exact .of_used rfl trivial
    · exact .refl _ fun _ => trivial
  | paymentFailed customer attemptCount =>
    cases h
    unfold Tenant.handlePaymentFailed
    split
    · rename_i failed
      exact .lost rfl rfl (Nat.not_lt.mpr failed)
    · rename_i few
      exact .refl _ fun _ => Nat.not_le.mp few
  | startTrial entity planSlug now =>
    simp only [BillingEvent.onTenant, Tenant.startTrial, Option.ite_none_left_eq_some] at h
    obtain ⟨-, h⟩ := h
    split at h
    all_goals
      cases h
      exact .kept rfl rfl trivial
  | endTrial entity convertToPaid =>
    cases h
    simp only [Tenant.endTrial]
    split <;> exact .of_used rfl trivial
  | processTrialEnd entity answer now =>
    simp only [BillingEvent.onTenant, Tenant.processTenantTrialEnd] at h
    split at h
    · cases h
      split <;> exact .of_used rfl trivial
    · cases h
      exact .refl _ fun _ => trivial
  | cleanupStaleSubscription userId answer => cases h
  | upgradePlan userId planType expiresAt => cases h
  | applyPlanToTenant tenantId planId =>
    obtain ⟨plan, -, rfl⟩ := Option.map_eq_some_iff.mp h
    exact .lost rfl rfl id

/-! ## Runs -/

theorem onRow_trial {plans : Plans} {e : BillingEvent} {r r' : BillingRow}
    (h : e.onRow plans r = some r') : TrialStep r r' (e.recordsRow r) := by
  cases r with
  | user q =>
    obtain ⟨q', hq', rfl⟩ := Option.map_eq_some_iff.mp h
    exact onUser_trial hq'
  | tenant t =>
    obtain ⟨t', ht', rfl⟩ := Option.map_eq_some_iff.mp h
    exact onTenant_trial ht'

/-- An event changes an existing row by the event's own function, or not at all. -/
theorem billingStep_old_row {db db' : Db} {e : BillingEvent} {entity : BillingEntity}
    {r : BillingRow} (h : db.billingStep e = some db') (found : db.billingRow entity = some r) :
    db'.billingRow entity = some r ∨ e.entity db = some entity ∧
      ∃ r', e.onRow db.plans r = some r' ∧ db'.billingRow entity = some r' := by
  obtain ⟨-, same⟩ | ⟨about, r₀, r', prepared, stepped, set⟩ := billingStep_row h entity
  · exact .inl (same.trans found)
  · obtain old | ⟨missing, -⟩ := prepare_row prepared
    · cases old.symm.trans found
      exact .inr ⟨about, r', stepped, set⟩
    · cases missing.symm.trans found

/-- The row exists, and its trial runs or was used. -/
def TrialKept (entity : BillingEntity) (db : Db) : Prop :=
  ∃ r, db.billingRow entity = some r ∧ (r.inTrial = true ∨ r.hasUsedTrial = true)

def TrialUsed (entity : BillingEntity) (db : Db) : Prop :=
  ∃ r, db.billingRow entity = some r ∧ r.hasUsedTrial = true

theorem billingStep_trialUsed {db db' : Db} {e : BillingEvent} {entity : BillingEntity}
    (h : db.billingStep e = some db') (used : TrialUsed entity db) : TrialUsed entity db' := by
  obtain ⟨r, found, used⟩ := used
  obtain same | ⟨-, r', stepped, set⟩ := billingStep_old_row h found
  · exact ⟨r, same, used⟩
  · exact ⟨r', set, (onRow_trial stepped).stays used⟩

theorem billingStep_trialKept {db db' : Db} {e : BillingEvent} {entity : BillingEntity}
    (h : db.billingStep e = some db') (records : recordsTrial entity db e)
    (kept : TrialKept entity db) : TrialKept entity db' := by
  obtain ⟨r, found, kept⟩ := kept
  obtain same | ⟨about, r', stepped, set⟩ := billingStep_old_row h found
  · exact ⟨r, same, kept⟩
  · refine ⟨r', set, ?_⟩
    have step := onRow_trial stepped
    cases used : r.hasUsedTrial with
    | true => exact .inr (step.stays used)
    | false =>
      have running : r.inTrial = true := kept.resolve_right (by simp [used])
      exact (step.records running used).mpr (records about r found running used)

theorem startTrial_refused {db : Db} {entity : BillingEntity} (used : TrialUsed entity db)
    (planSlug : String) (now : Time) : db.billingStep (.startTrial entity planSlug now) = none := by
  obtain ⟨r, found, used⟩ := used
  have refused : (BillingEvent.startTrial entity planSlug now).onRow db.plans r = none := by
    cases r with
    | user q => exact congrArg (Option.map _) (if_pos used)
    | tenant t => exact congrArg (Option.map _) (if_pos used)
  simp only [Db.billingStep, BillingEvent.prepare, BillingEvent.entity, found, Option.bind_some,
    refused, Option.map_none]

end GigaPdf
