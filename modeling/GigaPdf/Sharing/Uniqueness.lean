import GigaPdf.Lib.Text
import GigaPdf.Sharing.Invitations

/-!
# One share for a user

Active shares come from accepted invitations, one from each. Two of one user for one document
appear when the user accepts a second invitation to it, which the duplicate check lets through
when it writes the address differently.
-/

namespace GigaPdf

/-- The invitation is open to this address. -/
def ShareInvitation.admits (lower : String → String) (i : ShareInvitation) (userEmail : String)
    (now : Time) : Bool :=
  i.status = .pending && !(i.expiresAt < now) && lower i.inviteeEmail = lower userEmail

/-- The document and the user for whom a step creates a share. -/
def SharingStep.grantee (lower : String → String) (σ : Sharing) :
    SharingStep → Option (Uuid × String)
  | .shareDocument documentId _ inviteeEmail _ _ _ _ _ _ =>
    (scalarOneOrNone (σ.usersByEmail inviteeEmail)).join.map fun user => (documentId, user.userId)
  | .acceptInvitation token userId userEmail now _ =>
    ((σ.findToken token).filter (·.admits lower userEmail now)).map fun i => (i.documentId, userId)
  | _ => none

/-- The user has no accepted invitation to the document. -/
def Sharing.Uninvited (σ : Sharing) (documentId : Uuid) (userId : String) : Prop :=
  ∀ i ∈ σ.invitations.rows, i.status = .accepted → i.documentId = documentId →
    i.inviteeUserId ≠ some userId

/-- No step creates a share for a user who has already accepted an invitation to the document. -/
def freshGrantee (lower : String → String) (σ : Sharing) (step : SharingStep) : Prop :=
  ∀ grantee ∈ step.grantee lower σ, σ.Uninvited grantee.1 grantee.2

instance (σ : Sharing) (documentId : Uuid) (userId : String) :
    Decidable (σ.Uninvited documentId userId) := by
  unfold Sharing.Uninvited
  infer_instance

instance (lower : String → String) (σ : Sharing) (step : SharingStep) :
    Decidable (freshGrantee lower σ step) := by
  unfold freshGrantee
  infer_instance

/-! ## What a step does -/

/-- A step creates a share and the accepted invitation it belongs to. -/
structure Grants (σ σ' : Sharing) (i : ShareInvitation) (s : DocumentShare) : Prop where
  invitations : ∀ x, x ∈ σ'.invitations.rows ↔ x = i ∨ x ∈ σ.invitations.rows ∧ x.id ≠ i.id
  pending : ∀ x ∈ σ.invitations.rows, x.id = i.id → x.status ≠ .accepted
  shares : ∀ x, x ∈ σ'.shares.rows ↔ x = s ∨ x ∈ σ.shares.rows
  accepted : i.status = .accepted
  active : s.status = .active
  origin : s.invitationId = some i.id
  document : s.documentId = i.documentId
  user : s.sharedWithUserId = i.inviteeUserId

/-- A step changes invitations, and neither an accepted one nor a share. -/
structure Waits (σ σ' : Sharing) : Prop where
  invitations : ∀ x, x.status = .accepted →
    (x ∈ σ'.invitations.rows ↔ x ∈ σ.invitations.rows)
  shares : σ'.shares = σ.shares

/-- A share and its invitation are revoked. -/
structure Revokes (σ σ' : Sharing) (s : DocumentShare) : Prop where
  found : s ∈ σ.shares.rows
  active : s.status = .active
  shares : ∀ x, x.status = .active → (x ∈ σ'.shares.rows ↔ x ∈ σ.shares.rows ∧ x.id ≠ s.id)
  invitations : ∀ x, x.status = .accepted →
    (x ∈ σ'.invitations.rows ↔ x ∈ σ.invitations.rows ∧ s.invitationId ≠ some x.id)

theorem findToken_mem {σ : Sharing} {token : String} {i : ShareInvitation}
    (h : σ.findToken token = some i) : i ∈ σ.invitations.rows :=
  List.mem_of_find?_eq_some h

theorem addInvitation_spec {σ σ' : Sharing} {i : ShareInvitation}
    (h : σ.addInvitation i = some σ') :
    σ'.shares = σ.shares ∧ (∀ x ∈ σ.invitations.rows, x.id ≠ i.id) ∧
      ∀ x, x ∈ σ'.invitations.rows ↔ x = i ∨ x ∈ σ.invitations.rows := by
  simp only [Sharing.addInvitation, Option.ite_none_left_eq_some] at h
  obtain ⟨invitations, inserted, rfl⟩ := Option.map_eq_some_iff.mp h.2
  exact ⟨rfl, Table.find?_eq_none.mp (Table.insert?_eq_some.mp inserted).1,
    fun x => Table.mem_insert? inserted⟩

theorem addShare_spec {σ σ' : Sharing} {s : DocumentShare} (h : σ.addShare s = some σ') :
    σ'.invitations = σ.invitations ∧ ∀ x, x ∈ σ'.shares.rows ↔ x = s ∨ x ∈ σ.shares.rows := by
  obtain ⟨shares, inserted, rfl⟩ := Option.map_eq_some_iff.mp h
  exact ⟨rfl, fun x => Table.mem_insert? inserted⟩

/-- A change of a pending invitation to a status other than `accepted`. -/
theorem Waits.of_update {σ : Sharing} {i : ShareInvitation} (found : i ∈ σ.invitations.rows)
    (pending : i.status = .pending) (change : ShareInvitation → ShareInvitation)
    (keeps : ∀ r, (change r).id = r.id) (status : (change i).status ≠ .accepted) :
    Waits σ { σ with invitations := σ.invitations.update i.id change keeps } where
  invitations x hx := by
    rw [Table.mem_update_of_find? (Table.find?_of_mem found)]
    constructor
    · rintro (rfl | ⟨hx, -⟩)
      · exact absurd hx status
      · exact hx
    · intro mem
      refine .inr ⟨mem, fun same => ?_⟩
      rw [σ.invitations.eq_of_key_eq mem found same, pending] at hx
      cases hx
  shares := rfl

theorem shareDocument_spec {σ σ' : Sharing} {documentId invitationId shareId : Uuid}
    {inviterId inviteeEmail token : String} {permission : SharePermission} {expiresInDays : Nat}
    {now : Time}
    (h : σ.shareDocument documentId inviterId inviteeEmail permission expiresInDays now
      invitationId token shareId = some σ') :
    Waits σ σ' ∨ ∃ user i s,
      scalarOneOrNone (σ.usersByEmail inviteeEmail) = some (some user) ∧ Grants σ σ' i s ∧
        i.documentId = documentId ∧ i.inviteeUserId = some user.userId := by
  simp only [Sharing.shareDocument, Option.bind_eq_bind, Option.bind_eq_some_iff,
    Option.ite_none_left_eq_some] at h
  obtain ⟨_, -, _, -, -, user, account, h⟩ := h
  cases user with
  | none =>
    obtain ⟨shares, -, invitations⟩ := addInvitation_spec h
    refine .inl ⟨fun x hx => ?_, shares⟩
    rw [invitations]
    refine or_iff_right ?_
    rintro rfl
    cases hx
  | some user =>
    obtain ⟨σ₁, added, h⟩ := Option.bind_eq_some_iff.mp h
    obtain ⟨same, fresh, invitations⟩ := addInvitation_spec added
    obtain ⟨same', shares⟩ := addShare_spec h
    refine .inr ⟨user, _, Sharing.shareOf _ shareId user.userId, account, ⟨fun x => ?_,
      fun x hx e => absurd e (fresh x hx), fun x => ?_, rfl, rfl, rfl, rfl, rfl⟩, rfl, rfl⟩
    · rw [same', invitations]
      exact or_congr_right ⟨fun hx => ⟨hx, fresh x hx⟩, And.left⟩
    · rw [shares, same]
      exact Iff.rfl

theorem acceptInvitation_spec {lower : String → String} {σ σ' : Sharing}
    {token userId userEmail : String} {now : Time} {shareId : Uuid}
    (h : σ.acceptInvitation lower token userId userEmail now shareId = some σ') :
    Waits σ σ' ∨ ∃ found i s, σ.findToken token = some found ∧
      found.admits lower userEmail now = true ∧ Grants σ σ' i s ∧
        i.documentId = found.documentId ∧ i.inviteeUserId = some userId := by
  unfold Sharing.acceptInvitation at h
  split at h
  · cases h
  · rename_i found hfound
    have mem := findToken_mem hfound
    simp only [Option.ite_none_left_eq_some] at h
    obtain ⟨pending, h⟩ := h
    simp only [ne_eq, not_not] at pending
    split at h
    · cases h
      exact .inl (.of_update mem pending (fun i => { i with status := .expired }) (fun _ => rfl)
        (by simp))
    · rename_i valid
      simp only [Option.ite_none_left_eq_some] at h
      obtain ⟨address, h⟩ := h
      simp only [ne_eq, not_not] at address
      obtain ⟨same, shares⟩ := addShare_spec h
      refine .inr ⟨found, { found with status := .accepted, inviteeUserId := some userId },
        Sharing.shareOf found shareId userId, hfound, ?_, ⟨fun x => ?_, fun x hx e => ?_, shares,
        rfl, rfl, rfl, rfl, rfl⟩, rfl, rfl⟩
      · simp [ShareInvitation.admits, pending, valid, address]
      · rw [same, Table.mem_update_of_find? (Table.find?_of_mem mem)]
      · rw [σ.invitations.eq_of_key_eq hx mem e, pending]
        decide

theorem declineInvitation_spec {σ σ' : Sharing} {token : String}
    (h : σ.declineInvitation token = some σ') : Waits σ σ' := by
  unfold Sharing.declineInvitation at h
  split at h
  · cases h
  · rename_i found hfound
    simp only [Option.ite_none_left_eq_some] at h
    obtain ⟨pending, h⟩ := h
    simp only [ne_eq, not_not] at pending
    cases h
    exact .of_update (findToken_mem hfound) pending (fun i => { i with status := .declined })
      (fun _ => rfl) (by simp)

theorem revokeShare_spec {σ σ' : Sharing} {shareId : Uuid} {revokerId : String}
    (h : σ.revokeShare shareId revokerId = some σ') :
    ∃ s, σ.shares.find? shareId = some s ∧ Revokes σ σ' s := by
  simp only [Sharing.revokeShare, Option.bind_eq_bind, Option.bind_eq_some_iff,
    Option.ite_none_left_eq_some, Option.some.injEq] at h
  obtain ⟨s, found, _, -, live, rfl⟩ := h
  obtain ⟨mem, key⟩ := Table.find?_eq_some.mp found
  have active : s.status = .active := by
    cases h : s.status with
    | active => rfl
    | revoked => exact absurd h live
  refine ⟨s, found, mem, active, fun x hx => ?_, fun x hx => ?_⟩
  · rw [Table.mem_update_of_find? found, key]
    refine or_iff_right ?_
    rintro rfl
    cases hx
  · cases origin : s.invitationId with
    | none => simp
    | some id =>
      simp only [Table.mem_update, ne_eq, Option.some.injEq]
      constructor
      · rintro ⟨r, hr, rfl⟩
        split at hx
        · cases hx
        · rename_i other
          rw [if_neg other]
          exact ⟨hr, fun e => other e.symm⟩
      · rintro ⟨mem, other⟩
        exact ⟨x, mem, if_neg fun e => other e.symm⟩

/-- All that a step can do. -/
theorem step_cases {lower : String → String} {σ σ' : Sharing} {step : SharingStep}
    (h : σ.step lower step = some σ') :
    Waits σ σ' ∨
    (∃ i s userId, Grants σ σ' i s ∧ i.inviteeUserId = some userId ∧
      step.grantee lower σ = some (i.documentId, userId)) ∨
    (∃ s, Revokes σ σ' s) ∨ ∃ db, σ' = σ.setDb db := by
  cases step with
  | shareDocument documentId inviterId inviteeEmail permission expiresInDays now invitationId token
      shareId =>
    obtain waits | ⟨user, i, s, account, grants, document, invitee⟩ := shareDocument_spec h
    · exact .inl waits
    · refine .inr (.inl ⟨i, s, user.userId, grants, invitee, ?_⟩)
      simp [SharingStep.grantee, account, document]
  | acceptInvitation token userId userEmail now shareId =>
    obtain waits | ⟨found, i, s, hfound, admits, grants, document, invitee⟩ :=
      acceptInvitation_spec h
    · exact .inl waits
    · refine .inr (.inl ⟨i, s, userId, grants, invitee, ?_⟩)
      simp [SharingStep.grantee, hfound, admits, document]
  | declineInvitation token => exact .inl (declineInvitation_spec h)
  | revokeShare shareId revokerId =>
    obtain ⟨s, -, revokes⟩ := revokeShare_spec h
    exact .inr (.inr (.inl ⟨s, revokes⟩))
  | setDb db =>
    cases h
    exact .inr (.inr (.inr ⟨db, rfl⟩))

/-! ## The invariant -/

/-- Every active share has an accepted invitation of its own, and a user has at most one accepted
invitation to a document. -/
structure SharesConsistent (σ : Sharing) : Prop where
  invited : ∀ s ∈ σ.shares.rows, s.status = .active → ∃ i ∈ σ.invitations.rows,
    i.status = .accepted ∧ s.invitationId = some i.id ∧ s.documentId = i.documentId ∧
      s.sharedWithUserId = i.inviteeUserId
  own : ∀ s ∈ σ.shares.rows, ∀ s' ∈ σ.shares.rows, s.status = .active → s'.status = .active →
    s.invitationId = s'.invitationId → s = s'
  once : ∀ i ∈ σ.invitations.rows, ∀ i' ∈ σ.invitations.rows, i.status = .accepted →
    i'.status = .accepted → i.documentId = i'.documentId → i.inviteeUserId = i'.inviteeUserId →
    i = i'

theorem start_consistent (db : Db) : SharesConsistent (Sharing.start db) where
  invited _ hs := (List.not_mem_nil hs).elim
  own _ hs := (List.not_mem_nil hs).elim
  once _ hi := (List.not_mem_nil hi).elim

section
variable {σ σ' : Sharing} (hσ : SharesConsistent σ)
include hσ

theorem Waits.consistent (waits : Waits σ σ') : SharesConsistent σ' where
  invited s hs active := by
    rw [waits.shares] at hs
    obtain ⟨i, hi, accepted, rest⟩ := hσ.invited s hs active
    exact ⟨i, (waits.invitations i accepted).mpr hi, accepted, rest⟩
  own s hs s' hs' := by
    rw [waits.shares] at hs hs'
    exact hσ.own s hs s' hs'
  once i hi i' hi' accepted accepted' :=
    hσ.once i ((waits.invitations i accepted).mp hi) i'
      ((waits.invitations i' accepted').mp hi') accepted accepted'

/-- No active share belongs to an invitation that was not accepted. -/
theorem Grants.unshared {i : ShareInvitation} {s x : DocumentShare} (grants : Grants σ σ' i s)
    (hx : x ∈ σ.shares.rows) (active : x.status = .active) : x.invitationId ≠ some i.id := by
  intro same
  obtain ⟨j, hj, accepted, origin, -⟩ := hσ.invited x hx active
  rw [same, Option.some.injEq] at origin
  exact grants.pending j hj origin.symm accepted

theorem Grants.consistent {i : ShareInvitation} {s : DocumentShare} {userId : String}
    (grants : Grants σ σ' i s) (invitee : i.inviteeUserId = some userId)
    (fresh : σ.Uninvited i.documentId userId) : SharesConsistent σ' where
  invited x hx active := by
    obtain rfl | hx := (grants.shares x).mp hx
    · exact ⟨i, (grants.invitations i).mpr (.inl rfl), grants.accepted, grants.origin,
        grants.document, grants.user⟩
    · obtain ⟨j, hj, accepted, rest⟩ := hσ.invited x hx active
      refine ⟨j, (grants.invitations j).mpr (.inr ⟨hj, fun e => ?_⟩), accepted, rest⟩
      exact grants.pending j hj e accepted
  own x hx x' hx' active active' same := by
    obtain rfl | hx := (grants.shares x).mp hx <;> obtain rfl | hx' := (grants.shares x').mp hx'
    · rfl
    · exact absurd (same.symm.trans grants.origin) (grants.unshared hσ hx' active')
    · exact absurd (same.trans grants.origin) (grants.unshared hσ hx active)
    · exact hσ.own x hx x' hx' active active' same
  once j hj j' hj' accepted accepted' document user := by
    obtain rfl | ⟨hj, -⟩ := (grants.invitations j).mp hj <;>
      obtain rfl | ⟨hj', -⟩ := (grants.invitations j').mp hj'
    · rfl
    · exact absurd (user.symm.trans invitee) (fresh j' hj' accepted' document.symm)
    · exact absurd (user.trans invitee) (fresh j hj accepted document)
    · exact hσ.once j hj j' hj' accepted accepted' document user

theorem Revokes.consistent {s : DocumentShare} (revokes : Revokes σ σ' s) :
    SharesConsistent σ' where
  invited x hx active := by
    obtain ⟨hx, other⟩ := (revokes.shares x active).mp hx
    obtain ⟨j, hj, accepted, origin, rest⟩ := hσ.invited x hx active
    refine ⟨j, (revokes.invitations j accepted).mpr ⟨hj, fun same => other ?_⟩, accepted, origin,
      rest⟩
    -- A share of the revoked invitation is the revoked share.
    rw [hσ.own x hx s revokes.found active revokes.active (origin.trans same.symm)]
  own x hx x' hx' active active' :=
    hσ.own x ((revokes.shares x active).mp hx).1 x' ((revokes.shares x' active').mp hx').1
      active active'
  once j hj j' hj' accepted accepted' :=
    hσ.once j ((revokes.invitations j accepted).mp hj).1 j'
      ((revokes.invitations j' accepted').mp hj').1 accepted accepted'

theorem setDb_consistent (db : Db) : SharesConsistent (σ.setDb db) where
  invited s hs active := by
    obtain ⟨hs, document⟩ := Table.mem_deleteWhere.mp hs
    obtain ⟨i, hi, accepted, origin, same, rest⟩ := hσ.invited s hs active
    exact ⟨i, Table.mem_deleteWhere.mpr ⟨hi, same ▸ document⟩, accepted, origin, same, rest⟩
  own s hs s' hs' :=
    hσ.own s (Table.mem_deleteWhere.mp hs).1 s' (Table.mem_deleteWhere.mp hs').1
  once i hi i' hi' :=
    hσ.once i (Table.mem_deleteWhere.mp hi).1 i' (Table.mem_deleteWhere.mp hi').1

theorem step_consistent {lower : String → String} {step : SharingStep}
    (fresh : freshGrantee lower σ step) (h : σ.step lower step = some σ') :
    SharesConsistent σ' := by
  obtain waits | ⟨i, s, userId, grants, invitee, grantee⟩ | ⟨s, revokes⟩ | ⟨db, rfl⟩ := step_cases h
  · exact waits.consistent hσ
  · exact grants.consistent hσ invitee (fresh _ grantee)
  · exact revokes.consistent hσ
  · exact setDb_consistent hσ db

end

/-! ## Lookups -/

theorem mem_activeShares {σ : Sharing} {documentId : Uuid} {userId : String} {s : DocumentShare} :
    s ∈ σ.activeShares documentId userId ↔ s ∈ σ.shares.rows ∧ s.documentId = documentId ∧
      s.sharedWithUserId = some userId ∧ s.status = .active := by
  simp [Sharing.activeShares, and_assoc]

theorem SharesConsistent.unique {σ : Sharing} (hσ : SharesConsistent σ) (documentId : Uuid)
    (userId : String) : (σ.activeShares documentId userId).length ≤ 1 := by
  have same : ∀ s ∈ σ.activeShares documentId userId, ∀ s' ∈ σ.activeShares documentId userId,
      s = s' := by
    intro s hs s' hs'
    obtain ⟨mem, document, user, active⟩ := mem_activeShares.mp hs
    obtain ⟨mem', document', user', active'⟩ := mem_activeShares.mp hs'
    obtain ⟨i, hi, accepted, origin, of_document, of_user⟩ := hσ.invited s mem active
    obtain ⟨i', hi', accepted', origin', of_document', of_user'⟩ := hσ.invited s' mem' active'
    have invitation : i = i' := hσ.once i hi i' hi' accepted accepted'
      (of_document.symm.trans (document.trans (document'.symm.trans of_document')))
      (of_user.symm.trans (user.trans (user'.symm.trans of_user')))
    subst invitation
    exact hσ.own s mem s' mem' active active' (origin.trans origin'.symm)
  exact length_le_one_of_unique ((List.Nodup.of_map _ σ.shares.unique).filter _) same

/-- With one share at most neither lookup raises. -/
theorem lookups_succeed {σ : Sharing} {userId : String}
    (unique : ∀ documentId, (σ.activeShares documentId userId).length ≤ 1) (now : Time) :
    (∀ document, authorizeDocumentAccess σ document userId now ≠ .error .multipleResults) ∧
      ∀ documentId, (checkAccess σ documentId userId now).isSome = true := by
  constructor
  · rintro (_ | document)
    · simp [authorizeDocumentAccess]
    · simp only [authorizeDocumentAccess, Sharing.activeShareForUser]
      obtain ⟨share, hshare⟩ :=
        Option.isSome_iff_exists.mp (scalarOneOrNone_isSome (unique document.id))
      rw [hshare, Option.map_some]
      split
      · simp
      · split <;> simp_all
  · intro documentId
    unfold checkAccess
    split
    · rfl
    · split
      · rfl
      · rw [Option.isSome_map]
        exact scalarOneOrNone_isSome (unique documentId)

/-- Neither lookup finds a direct share of this user for this document. -/
def NoDirectAccess (σ : Sharing) (documentId : Uuid) (userId : String) : Prop :=
  ∀ now, σ.activeShareForUser documentId userId now = some none ∧
    ∀ permission shareId, checkAccess σ documentId userId now ≠
      some (.directShare permission shareId)

theorem noDirectAccess {σ : Sharing} {documentId : Uuid} {userId : String}
    (none_active : σ.activeShares documentId userId = []) :
    NoDirectAccess σ documentId userId := by
  intro now
  constructor
  · rw [Sharing.activeShareForUser, none_active]
    rfl
  · intro permission shareId
    unfold checkAccess
    split
    · simp
    · split
      · simp
      · rw [none_active]
        simp [scalarOneOrNone]

/-! ## Revocation -/

/-- The step does not create a share of this document for this user. -/
def grantsNothing (lower : String → String) (documentId : Uuid) (userId : String) (σ : Sharing)
    (step : SharingStep) : Prop :=
  step.grantee lower σ ≠ some (documentId, userId)

theorem step_activeShares {lower : String → String} {documentId : Uuid} {userId : String}
    {σ σ' : Sharing} {step : SharingStep} (none_active : σ.activeShares documentId userId = [])
    (other : grantsNothing lower documentId userId σ step) (h : σ.step lower step = some σ') :
    σ'.activeShares documentId userId = [] := by
  rw [List.eq_nil_iff_forall_not_mem] at none_active ⊢
  intro x hx
  obtain ⟨hx, document, user, active⟩ := mem_activeShares.mp hx
  have old : x ∉ σ.shares.rows := fun mem =>
    none_active x (mem_activeShares.mpr ⟨mem, document, user, active⟩)
  obtain waits | ⟨i, s, invitee, grants, inviteeUserId, grantee⟩ | ⟨s, revokes⟩ | ⟨db, rfl⟩ :=
    step_cases h
  · rw [waits.shares] at hx
    exact old hx
  · obtain rfl | hx := (grants.shares x).mp hx
    · have mine : i.documentId = documentId ∧ invitee = userId :=
        ⟨grants.document.symm.trans document,
          Option.some.inj (inviteeUserId.symm.trans (grants.user.symm.trans user))⟩
      exact other (by rw [grantee, mine.1, mine.2])
    · exact old hx
  · exact old ((revokes.shares x active).mp hx).1
  · exact old (Table.mem_deleteWhere.mp hx).1

/-- The revoked share was the user's only one. -/
theorem revokeShare_activeShares {σ σ' : Sharing} (hσ : SharesConsistent σ) {shareId : Uuid}
    {revokerId : String} (h : σ.revokeShare shareId revokerId = some σ') {s : DocumentShare}
    (found : σ.shares.find? shareId = some s) {userId : String}
    (user : s.sharedWithUserId = some userId) : σ'.activeShares s.documentId userId = [] := by
  obtain ⟨s', found', revokes⟩ := revokeShare_spec h
  cases found.symm.trans found'
  rw [List.eq_nil_iff_forall_not_mem]
  intro x hx
  obtain ⟨hx, document, of_user, active⟩ := mem_activeShares.mp hx
  obtain ⟨hx, other⟩ := (revokes.shares x active).mp hx
  have unique := hσ.unique s.documentId userId
  have mem : x ∈ σ.activeShares s.documentId userId :=
    mem_activeShares.mpr ⟨hx, document, of_user, active⟩
  have mem' : s ∈ σ.activeShares s.documentId userId :=
    mem_activeShares.mpr ⟨revokes.found, rfl, user, revokes.active⟩
  match h : σ.activeShares s.documentId userId with
  | [] => simp [h] at mem
  | [y] =>
    rw [h, List.mem_singleton] at mem mem'
    exact other (by rw [mem, mem'])
  | _ :: _ :: _ => simp [h] at unique

/-- While no share is created for a user who has already accepted an invitation to the document,
a user has at most one active share of it, the lookups do not raise, and after a revocation the
user has no direct access until another share is created. -/
theorem direct_shares_unique (lower : String → String) {db : Db} {σ : Sharing}
    (run : Runs.Reaches (Sharing.step lower) (freshGrantee lower) (Sharing.start db) σ) :
    (∀ documentId userId, (σ.activeShares documentId userId).length ≤ 1) ∧
    (∀ userId now,
      (∀ document, authorizeDocumentAccess σ document userId now ≠ .error .multipleResults) ∧
        ∀ documentId, (checkAccess σ documentId userId now).isSome = true) ∧
    ∀ shareId revokerId revoked share userId, σ.revokeShare shareId revokerId = some revoked →
      σ.shares.find? shareId = some share → share.sharedWithUserId = some userId →
      ∀ later, Runs.Reaches (Sharing.step lower) (grantsNothing lower share.documentId userId)
        revoked later → NoDirectAccess later share.documentId userId := by
  have hσ : SharesConsistent σ :=
    run.invariant (fun _ _ _ hσ fresh h => step_consistent hσ fresh h) (start_consistent db)
  refine ⟨hσ.unique, fun userId now => lookups_succeed (fun d => hσ.unique d userId) now, ?_⟩
  intro shareId revokerId revoked share userId hrevoke found user later rest
  have after := revokeShare_activeShares hσ hrevoke found user
  exact noDirectAccess
    (rest.invariant (fun _ _ _ inv other h => step_activeShares inv other h) after)

/-- `str.lower` on ASCII letters. -/
def asciiLower (text : String) : String := String.ofList (Text.lower text.toList)

def anasNote : StoredDocument where
  id := uuid "note"
  name := "note"
  ownerId := "ana"
  folderId := none
  pageCount := 1
  currentVersion := 1
  fileSizeBytes := some 6
  mimeType := some "application/pdf"
  originalFormat := none
  thumbnailPath := none
  isDeleted := false
  deletedAt := none
  quotaTenantId := none

/-- Ana has a document, and Bob an account. -/
def sharingDb : Db :=
  { Db.empty with
    documents := ⟨[anasNote], by decide⟩
    users := ⟨[{ freeQuotaValues "bob" with email := some "bob@example.org" }], by decide⟩ }

/-- Ana shares her document with an address. -/
def anaShares (inviteeEmail : String) (invitationId : Uuid) (token : String) (shareId : Uuid) :
    SharingStep :=
  .shareDocument (uuid "note") "ana" inviteeEmail .edit 7 0 invitationId token shareId

/-- Ana shares with Bob, revokes, and shares again. -/
theorem direct_shares_unique_after_revoke : ∃ σ,
    Runs.Reaches (Sharing.step asciiLower) (freshGrantee asciiLower) (Sharing.start sharingDb) σ ∧
    (σ.activeShares (uuid "note") "bob").length = 1 ∧
    ∃ revoked, σ.revokeShare (uuid "share2") "ana" = some revoked ∧
      NoDirectAccess revoked (uuid "note") "bob" := by
  obtain ⟨σ, run, active, hrevoke, hshare⟩ := Runs.exists_reaches_of_runAll
    (Sharing.step asciiLower) (freshGrantee asciiLower) (Sharing.start sharingDb)
    [anaShares "bob@example.org" (uuid "inv1") "t1" (uuid "share1"),
     .revokeShare (uuid "share1") "ana",
     anaShares "bob@example.org" (uuid "inv2") "t2" (uuid "share2")]
    (fun σ => (σ.activeShares (uuid "note") "bob").length = 1 ∧
      (σ.revokeShare (uuid "share2") "ana").isSome = true ∧
      (σ.shares.find? (uuid "share2")).any (fun s =>
        s.documentId = uuid "note" ∧ s.sharedWithUserId = some "bob") = true)
    (by decide)
  obtain ⟨revoked, hrevoke⟩ := Option.isSome_iff_exists.mp hrevoke
  obtain ⟨share, found, h⟩ := (Option.any_eq_true _ _).mp hshare
  obtain ⟨document, user⟩ := of_decide_eq_true h
  have unique := (direct_shares_unique asciiLower run).2.2 _ _ revoked share "bob" hrevoke found
    user revoked .refl
  exact ⟨σ, run, active, revoked, hrevoke, document ▸ unique⟩

/-- Bob accepts an invitation to another spelling of his address: the lookup raises, and one
revocation leaves him the other share. -/
theorem direct_share_twice : ∃ σ,
    Runs.Reaches (Sharing.step asciiLower) Runs.always (Sharing.start sharingDb) σ ∧
    (σ.activeShares (uuid "note") "bob").length = 2 ∧ checkAccess σ (uuid "note") "bob" 0 = none ∧
    (σ.revokeShare (uuid "share2") "ana").any (fun revoked =>
      checkAccess revoked (uuid "note") "bob" 0 = some (.directShare .edit (uuid "share3"))) =
        true :=
  Runs.exists_reaches_of_runAll (Sharing.step asciiLower) Runs.always (Sharing.start sharingDb)
    [anaShares "Bob@example.org" (uuid "inv1") "t1" (uuid "share1"),
     anaShares "bob@example.org" (uuid "inv2") "t2" (uuid "share2"),
     .acceptInvitation "t1" "bob" "bob@example.org" 1 (uuid "share3")]
    _ (by decide)

end GigaPdf
