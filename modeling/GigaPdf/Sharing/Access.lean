import GigaPdf.Sharing.Uniqueness

/-!
# The two access rules

The guard of `access_guard.py` and the whole of `check_access`, with the shares of organizations.
The guard never asks for these, and `check_access` asks only where it finds no direct share.
-/

namespace GigaPdf

/-- A row of `tenant_documents`. -/
structure TenantDocument where
  tenantId : Uuid
  documentId : Uuid
deriving DecidableEq

/-- A document is shared with an organization once. -/
def TenantDocument.key (d : TenantDocument) : Uuid × Uuid := (d.tenantId, d.documentId)

abbrev TenantDocuments := Table TenantDocument.key

/-- The first active membership in an organization that the document is shared with. -/
def Sharing.organizationShare (σ : Sharing) (tenantDocuments : TenantDocuments)
    (documentId : Uuid) (userQuotaId : String) : Option TenantMember :=
  (σ.db.members.filter fun m => m.userId = userQuotaId && m.isActive).find? fun m =>
    (tenantDocuments.find? (m.tenantId, documentId)).isSome

def TenantRole.sharePermission : TenantRole → SharePermission
  | .owner | .admin | .manager => .edit
  | .member | .viewer => .view

/-- What `check_access` answers: as far as the direct shares, an organization's share, or nothing. -/
inductive AccessAnswer
  | direct (report : AccessReport)
  | organization (permission : SharePermission) (tenantId : Uuid) (role : TenantRole)
  | noAccess
deriving DecidableEq

/-- An empty `user_quota_id` counts as none. -/
def Sharing.grantingMembership (σ : Sharing) (tenantDocuments : TenantDocuments)
    (documentId : Uuid) (userQuotaId : Option String) : Option TenantMember :=
  (userQuotaId.filter (· ≠ "")).bind (σ.organizationShare tenantDocuments documentId)

def PermissionService.checkAccess (σ : Sharing) (tenantDocuments : TenantDocuments)
    (documentId : Uuid) (userId : String) (userQuotaId : Option String) (now : Time) :
    Option AccessAnswer :=
  (GigaPdf.checkAccess σ documentId userId now).map fun report =>
    match report with
    | .noDirectShare =>
      match σ.grantingMembership tenantDocuments documentId userQuotaId with
      | some m => .organization m.role.sharePermission m.tenantId m.role
      | none => .noAccess
    | _ => .direct report

def AccessDecision.canEdit : AccessDecision → Bool
  | .ownership => true
  | .directShare permission => permission = .edit

def AccessAnswer.hasAccess : AccessAnswer → Bool
  | .direct .ownership | .direct (.directShare _ _) | .organization _ _ _ => true
  | .direct _ | .noAccess => false

def AccessAnswer.canEdit : AccessAnswer → Bool
  | .direct .ownership => true
  | .direct (.directShare permission _) | .organization permission _ _ => permission = .edit
  | .direct _ | .noAccess => false

/-! ## Agreement -/

section
variable (σ : Sharing) (tenantDocuments : TenantDocuments) (document : StoredDocument)
  (userId : String) (userQuotaId : Option String) (now : Time)

def guardGrants : Bool :=
  (authorizeDocumentAccess σ (some document) userId now).isOk

def guardGrantsEdit : Bool :=
  match authorizeDocumentAccess σ (some document) userId now with
  | .ok decision => decision.canEdit
  | .error _ => false

def serviceGrants : Bool :=
  (PermissionService.checkAccess σ tenantDocuments document.id userId userQuotaId now).any
    (·.hasAccess)

def serviceGrantsEdit : Bool :=
  (PermissionService.checkAccess σ tenantDocuments document.id userId userQuotaId now).any
    (·.canEdit)

/-- Some organization of the user shares the document. -/
def organizationGrants : Bool :=
  (σ.grantingMembership tenantDocuments document.id userQuotaId).isSome

def heldShares (expired : Bool) : List DocumentShare :=
  (σ.activeShares document.id userId).filter fun s => s.expiresAt.any (· < now) = expired

/-- The rules agree, and an expired direct share takes nothing from an organization's share. -/
structure RulesAgree : Prop where
  access : guardGrants σ document userId now =
    serviceGrants σ tenantDocuments document userId userQuotaId now
  edit : guardGrantsEdit σ document userId now =
    serviceGrantsEdit σ tenantDocuments document userId userQuotaId now
  expired : heldShares σ document userId now true ≠ [] →
    organizationGrants σ tenantDocuments document userQuotaId = true →
      guardGrants σ document userId now = true ∧
        serviceGrants σ tenantDocuments document userId userQuotaId now = true

end

section
variable {σ : Sharing} {tenantDocuments : TenantDocuments} {document : StoredDocument}
  {userId : String} {userQuotaId : Option String} {now : Time}

/-- What `check_access` makes of its direct part. -/
def answerOf (organization : Option TenantMember) : AccessReport → AccessAnswer
  | .noDirectShare =>
    match organization with
    | some m => .organization m.role.sharePermission m.tenantId m.role
    | none => .noAccess
  | report => .direct report

theorem checkAccess_report {report : AccessReport}
    (h : GigaPdf.checkAccess σ document.id userId now = some report) :
    PermissionService.checkAccess σ tenantDocuments document.id userId userQuotaId now =
      some (answerOf (σ.grantingMembership tenantDocuments document.id userQuotaId) report) := by
  rw [PermissionService.checkAccess, h, Option.map_some]
  cases report <;> rfl

/-- The report on the only active share of a user who does not own the document. -/
def shareReport (now : Time) : Option DocumentShare → AccessReport
  | none => .noDirectShare
  | some share =>
    if share.expiresAt.any (· < now) then .shareExpired
    else .directShare share.permission share.id

theorem checkAccess_live (found : σ.db.documents.find? document.id = some document)
    (live : document.isDeleted = false) :
    GigaPdf.checkAccess σ document.id userId now =
      if document.ownerId = userId then some .ownership
      else (scalarOneOrNone (σ.activeShares document.id userId)).map (shareReport now) := by
  have kept : (some document).filter (fun d => !d.isDeleted) = some document := by
    rw [Option.filter_some, if_pos]
    simp [live]
  rw [GigaPdf.checkAccess, found, kept]
  rfl

/-- Both rules see the one active share that the user may have. -/
theorem rules_on_share (found : σ.db.documents.find? document.id = some document)
    (live : document.isDeleted = false) (other : document.ownerId ≠ userId)
    {share : Option DocumentShare}
    (looked : scalarOneOrNone (σ.activeShares document.id userId) = some share) :
    authorizeDocumentAccess σ (some document) userId now =
      (match share.filter fun s => !s.expiresAt.any (· < now) with
        | none => .error .forbidden
        | some s => .ok (.directShare s.permission)) ∧
    PermissionService.checkAccess σ tenantDocuments document.id userId userQuotaId now =
      some (answerOf (σ.grantingMembership tenantDocuments document.id userQuotaId)
        (shareReport now share)) := by
  constructor
  · rw [authorizeDocumentAccess, if_neg other, Sharing.activeShareForUser, looked, Option.map_some]
    cases share.filter fun s => !s.expiresAt.any (· < now) <;> rfl
  · apply checkAccess_report
    rw [checkAccess_live found live, if_neg other, looked, Option.map_some]

/-- Whoever owns the document is granted everything by both. -/
theorem owner_agrees (found : σ.db.documents.find? document.id = some document)
    (live : document.isDeleted = false) (owner : document.ownerId = userId) :
    RulesAgree σ tenantDocuments document userId userQuotaId now := by
  have guard : authorizeDocumentAccess σ (some document) userId now = .ok .ownership := by
    simp [authorizeDocumentAccess, owner]
  have direct : GigaPdf.checkAccess σ document.id userId now = some .ownership := by
    rw [checkAccess_live found live, if_pos owner]
  have service : PermissionService.checkAccess σ tenantDocuments document.id userId userQuotaId
      now = some (.direct .ownership) := checkAccess_report direct
  have granted : guardGrants σ document userId now = true := by
    rw [guardGrants, guard]
    rfl
  have reported : serviceGrants σ tenantDocuments document userId userQuotaId now = true := by
    rw [serviceGrants, service]
    rfl
  refine ⟨granted.trans reported.symm, ?_, fun _ _ => ⟨granted, reported⟩⟩
  rw [guardGrantsEdit, serviceGrantsEdit, guard, service]
  rfl

/-- Without a direct share the guard refuses whoever an organization admits. -/
theorem unshared_agrees_iff (found : σ.db.documents.find? document.id = some document)
    (live : document.isDeleted = false) (other : document.ownerId ≠ userId)
    (none_active : σ.activeShares document.id userId = []) :
    RulesAgree σ tenantDocuments document userId userQuotaId now ↔
      organizationGrants σ tenantDocuments document userQuotaId = false := by
  have looked : scalarOneOrNone (σ.activeShares document.id userId) = some none := by
    rw [none_active]
    rfl
  obtain ⟨guard, service⟩ :=
    @rules_on_share σ tenantDocuments document userId userQuotaId now found live other none looked
  have refused : guardGrants σ document userId now = false := by
    rw [guardGrants, guard]
    rfl
  have refusedEdit : guardGrantsEdit σ document userId now = false := by
    rw [guardGrantsEdit, guard]
    rfl
  constructor
  · intro agree
    have denied := agree.access.symm.trans refused
    rw [serviceGrants, service] at denied
    cases organization : σ.grantingMembership tenantDocuments document.id userQuotaId with
    | none => simp [organizationGrants, organization]
    | some m =>
      rw [organization] at denied
      cases denied
  · intro closed
    have organization : σ.grantingMembership tenantDocuments document.id userQuotaId = none := by
      simpa [organizationGrants] using closed
    rw [organization] at service
    refine ⟨?_, ?_, fun held => ?_⟩
    · rw [refused, serviceGrants, service]
      rfl
    · rw [refusedEdit, serviceGrantsEdit, service]
      rfl
    · rw [heldShares, none_active] at held
      exact absurd rfl held

/-- Both rules refuse an expired share, and neither asks an organization then. -/
theorem expired_agrees_iff (found : σ.db.documents.find? document.id = some document)
    (live : document.isDeleted = false) (other : document.ownerId ≠ userId) {s : DocumentShare}
    (held : σ.activeShares document.id userId = [s]) (expired : s.expiresAt.any (· < now) = true) :
    RulesAgree σ tenantDocuments document userId userQuotaId now ↔
      organizationGrants σ tenantDocuments document userQuotaId = false := by
  have looked : scalarOneOrNone (σ.activeShares document.id userId) = some (some s) := by
    rw [held]
    rfl
  obtain ⟨guard, service⟩ :=
    @rules_on_share σ tenantDocuments document userId userQuotaId now found live other (some s)
      looked
  have dropped : (some s).filter (fun s => !s.expiresAt.any (· < now)) = none := by
    rw [Option.filter_some, expired]
    rfl
  have report : shareReport now (some s) = .shareExpired := by
    rw [shareReport, if_pos expired]
  rw [dropped] at guard
  rw [report] at service
  have refused : guardGrants σ document userId now = false := by
    rw [guardGrants, guard]
    rfl
  constructor
  · intro agree
    have expiredHeld : heldShares σ document userId now true ≠ [] := by
      simp [heldShares, held, expired]
    apply Bool.eq_false_iff.mpr
    intro organization
    have granted := (agree.expired expiredHeld organization).1
    rw [refused] at granted
    cases granted
  · intro closed
    refine ⟨?_, ?_, fun _ organization => ?_⟩
    · rw [refused, serviceGrants, service]
      rfl
    · rw [guardGrantsEdit, guard, serviceGrantsEdit, service]
      rfl
    · rw [closed] at organization
      cases organization

/-- On a share that has not expired both rules read the same permission. -/
theorem shared_agrees (found : σ.db.documents.find? document.id = some document)
    (live : document.isDeleted = false) (other : document.ownerId ≠ userId) {s : DocumentShare}
    (held : σ.activeShares document.id userId = [s]) (valid : s.expiresAt.any (· < now) = false) :
    RulesAgree σ tenantDocuments document userId userQuotaId now := by
  have looked : scalarOneOrNone (σ.activeShares document.id userId) = some (some s) := by
    rw [held]
    rfl
  obtain ⟨guard, service⟩ :=
    @rules_on_share σ tenantDocuments document userId userQuotaId now found live other (some s)
      looked
  have kept : (some s).filter (fun s => !s.expiresAt.any (· < now)) = some s := by
    rw [Option.filter_some, valid]
    rfl
  have report : shareReport now (some s) = .directShare s.permission s.id := by
    rw [shareReport, if_neg (by simp [valid])]
  rw [kept] at guard
  rw [report] at service
  refine ⟨?_, ?_, fun expiredHeld => ?_⟩
  · rw [guardGrants, guard, serviceGrants, service]
    rfl
  · rw [guardGrantsEdit, guard, serviceGrantsEdit, service]
    rfl
  · simp [heldShares, held, valid] at expiredHeld

/-- The rules agree just for owners, for users with a direct share that has not expired, and where
no organization of the user shares the document. -/
theorem access_rules_agree_iff (found : σ.db.documents.find? document.id = some document)
    (live : document.isDeleted = false)
    (unique : (σ.activeShares document.id userId).length ≤ 1) :
    RulesAgree σ tenantDocuments document userId userQuotaId now ↔
      document.ownerId = userId ∨ heldShares σ document userId now false ≠ [] ∨
        organizationGrants σ tenantDocuments document userQuotaId = false := by
  by_cases owner : document.ownerId = userId
  · exact iff_of_true (owner_agrees found live owner) (.inl owner)
  · rw [or_iff_right owner]
    match held : σ.activeShares document.id userId with
    | [] =>
      have unheld : heldShares σ document userId now false = [] := by
        rw [heldShares, held]
        rfl
      rw [unshared_agrees_iff found live owner held, or_iff_right (not_not.mpr unheld)]
    | [s] =>
      cases expiry : s.expiresAt.any (· < now) with
      | true =>
        have unheld : heldShares σ document userId now false = [] := by
          simp [heldShares, held, expiry]
        rw [expired_agrees_iff found live owner held expiry, or_iff_right (not_not.mpr unheld)]
      | false =>
        have valid : heldShares σ document userId now false ≠ [] := by
          simp [heldShares, held, expiry]
        exact iff_of_true (shared_agrees found live owner held expiry) (.inl valid)
    | _ :: _ :: _ => simp [held] at unique

end

/-- Ana's note is shared with a team in which Bob is a manager. -/
def teamDb : Db :=
  { sharingDb with members := [⟨uuid "team", "bob-quota", .manager, true⟩] }

def teamDocuments : TenantDocuments := ⟨[⟨uuid "team", uuid "note"⟩], by decide⟩

/-- Bob has a direct share besides. -/
def teamSharing (expiresAt : Option Time) : Sharing :=
  { Sharing.start teamDb with
    shares := ⟨[⟨uuid "share", uuid "note", some "bob", .view, expiresAt, "ana", .active, none,
      none⟩], by simp⟩ }

theorem access_rules_agree_for_grantee :
    (teamSharing (some 5)).db.documents.find? anasNote.id = some anasNote ∧
    RulesAgree (teamSharing (some 5)) teamDocuments anasNote "bob" (some "bob-quota") 3 :=
  ⟨by decide, (access_rules_agree_iff (by decide) (by decide) (by decide)).mpr
    (.inr (.inl (by decide)))⟩

/-- The guard turns the manager away whom the service lets edit; once his direct share has expired
the service turns him away too. -/
theorem guard_ignores_organization :
    ((Sharing.start teamDb).db.documents.find? anasNote.id = some anasNote ∧
      guardGrants (Sharing.start teamDb) anasNote "bob" 3 = false ∧
      serviceGrantsEdit (Sharing.start teamDb) teamDocuments anasNote "bob" (some "bob-quota") 3 =
        true ∧
      ¬ RulesAgree (Sharing.start teamDb) teamDocuments anasNote "bob" (some "bob-quota") 3) ∧
    organizationGrants (teamSharing (some 2)) teamDocuments anasNote (some "bob-quota") = true ∧
      serviceGrants (teamSharing (some 2)) teamDocuments anasNote "bob" (some "bob-quota") 3 =
        false ∧
      ¬ RulesAgree (teamSharing (some 2)) teamDocuments anasNote "bob" (some "bob-quota") 3 := by
  refine ⟨⟨by decide, by decide, by decide, fun agree => ?_⟩, by decide, by decide,
    fun agree => ?_⟩
  · have access := agree.access
    revert access
    decide
  · have granted := (agree.expired (by decide) (by decide)).2
    revert granted
    decide

end GigaPdf
