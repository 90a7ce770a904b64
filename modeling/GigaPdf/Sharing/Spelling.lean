import GigaPdf.Sharing.Uniqueness

/-!
# One spelling of an address

When every account has one address up to case, a second accepted invitation of a user to a
document needs a second spelling of that address in the invitations to the document.
-/

namespace GigaPdf

/-- The duplicate check counts an invitation in these two states. -/
def ShareInvitation.isOpen (i : ShareInvitation) : Prop := i.status = .pending ∨ i.status = .accepted

/-- No open invitation to the document has the address in another spelling, and accounts have the
address that `address` names, in lower case. -/
def oneSpelling (lower address : String → String) (σ : Sharing) : SharingStep → Prop
  | .shareDocument documentId _ inviteeEmail _ _ _ _ _ _ =>
    (∀ i ∈ σ.invitations.rows, i.isOpen → i.documentId = documentId →
      lower i.inviteeEmail = lower inviteeEmail → i.inviteeEmail = inviteeEmail) ∧
    ∀ q ∈ σ.usersByEmail inviteeEmail, lower inviteeEmail = address q.userId
  | .acceptInvitation _ userId userEmail _ _ => lower userEmail = address userId
  | _ => True

/-- Open invitations to a document have different addresses, and an accepted one has the address
of the user who accepted it. -/
structure AddressesApart (lower address : String → String) (σ : Sharing) : Prop where
  apart : ∀ i ∈ σ.invitations.rows, ∀ i' ∈ σ.invitations.rows, i.isOpen → i'.isOpen →
    i.documentId = i'.documentId → lower i.inviteeEmail = lower i'.inviteeEmail → i = i'
  addressed : ∀ i ∈ σ.invitations.rows, i.status = .accepted → ∀ userId,
    i.inviteeUserId = some userId → lower i.inviteeEmail = address userId

theorem start_addressesApart (lower address : String → String) (db : Db) :
    AddressesApart lower address (Sharing.start db) where
  apart _ hi := (List.not_mem_nil hi).elim
  addressed _ hi := (List.not_mem_nil hi).elim

section
variable {lower address : String → String} {σ σ' : Sharing}

/-- Steps that bring no new invitation and accept none only close some. -/
theorem AddressesApart.of_closing (h : AddressesApart lower address σ)
    (old : ∀ i ∈ σ'.invitations.rows, i.isOpen → i ∈ σ.invitations.rows) :
    AddressesApart lower address σ' where
  apart i hi i' hi' opened opened' := h.apart i (old i hi opened) i' (old i' hi' opened') opened opened'
  addressed i hi accepted := h.addressed i (old i hi (.inr accepted)) accepted

/-- An update that closes an invitation brings no open one. -/
theorem open_of_update {t : Table ShareInvitation.id} {id : Uuid}
    {change : ShareInvitation → ShareInvitation} {i : ShareInvitation}
    (updated : ∃ r ∈ t.rows, (if r.id = id then change r else r) = i) (opened : i.isOpen)
    (closes : ∀ r, ¬(change r).isOpen) : i ∈ t.rows := by
  obtain ⟨r, hr, rfl⟩ := updated
  split at opened
  · exact absurd opened (closes r)
  · rename_i other
    rw [if_neg other]
    exact hr

/-- A new invitation to an address that no open one has. -/
theorem AddressesApart.of_new (h : AddressesApart lower address σ) {i : ShareInvitation}
    (invitations : ∀ x, x ∈ σ'.invitations.rows ↔ x = i ∨ x ∈ σ.invitations.rows)
    (fresh : ∀ x ∈ σ.invitations.rows, x.isOpen → x.documentId = i.documentId →
      lower x.inviteeEmail ≠ lower i.inviteeEmail)
    (invitee : ∀ userId, i.inviteeUserId = some userId → lower i.inviteeEmail = address userId) :
    AddressesApart lower address σ' where
  apart x hx x' hx' opened opened' document same := by
    obtain rfl | hx := (invitations x).mp hx <;> obtain rfl | hx' := (invitations x').mp hx'
    · rfl
    · exact absurd same.symm (fresh x' hx' opened' document.symm)
    · exact absurd same (fresh x hx opened document)
    · exact h.apart x hx x' hx' opened opened' document same
  addressed x hx accepted := by
    obtain rfl | hx := (invitations x).mp hx
    · exact invitee
    · exact h.addressed x hx accepted

/-- A pending invitation is accepted by the user of its address. -/
theorem AddressesApart.of_accepted (h : AddressesApart lower address σ) {i : ShareInvitation}
    {userId : String} (found : i ∈ σ.invitations.rows) (pending : i.status = .pending)
    (mine : lower i.inviteeEmail = address userId)
    (invitations : σ'.invitations = σ.invitations.update i.id
      (fun i => { i with status := .accepted, inviteeUserId := some userId }) fun _ => rfl) :
    AddressesApart lower address σ' := by
  have rows : ∀ x, x ∈ σ'.invitations.rows ↔
      x = { i with status := .accepted, inviteeUserId := some userId } ∨
        x ∈ σ.invitations.rows ∧ x.id ≠ i.id := by
    intro x
    rw [invitations, Table.mem_update_of_find? (Table.find?_of_mem found)]
  constructor
  · intro x hx x' hx' opened opened' document same
    obtain rfl | ⟨hx, other⟩ := (rows x).mp hx <;> obtain rfl | ⟨hx', other'⟩ := (rows x').mp hx'
    · rfl
    · exact absurd (congrArg ShareInvitation.id
        (h.apart i found x' hx' (.inl pending) opened' document same)).symm other'
    · exact absurd (congrArg ShareInvitation.id
        (h.apart x hx i found opened (.inl pending) document same)) other
    · exact h.apart x hx x' hx' opened opened' document same
  · intro x hx accepted user invitee
    obtain rfl | ⟨hx, -⟩ := (rows x).mp hx
    · cases invitee
      exact mine
    · exact h.addressed x hx accepted user invitee

end

/-! ## Steps -/

/-- The new invitation of a share, which no open one to the same spelling precedes. -/
theorem shareDocument_invitation {σ σ' : Sharing} {documentId invitationId shareId : Uuid}
    {inviterId inviteeEmail token : String} {permission : SharePermission} {expiresInDays : Nat}
    {now : Time}
    (h : σ.shareDocument documentId inviterId inviteeEmail permission expiresInDays now
      invitationId token shareId = some σ') :
    σ.openInvitations documentId inviteeEmail = [] ∧
    ∃ user i, scalarOneOrNone (σ.usersByEmail inviteeEmail) = some user ∧
      i.documentId = documentId ∧ i.inviteeEmail = inviteeEmail ∧
      i.inviteeUserId = user.map (·.userId) ∧
      ∀ x, x ∈ σ'.invitations.rows ↔ x = i ∨ x ∈ σ.invitations.rows := by
  simp only [Sharing.shareDocument, Option.bind_eq_bind, Option.bind_eq_some_iff,
    Option.ite_none_left_eq_some] at h
  obtain ⟨_, -, existing, hopen, free, user, account, h⟩ := h
  cases existing with
  | some i => simp at free
  | none =>
    refine ⟨scalarOneOrNone_none hopen, user, ?_⟩
    cases user with
    | none =>
      obtain ⟨-, -, invitations⟩ := addInvitation_spec h
      exact ⟨_, account, rfl, rfl, rfl, invitations⟩
    | some user =>
      obtain ⟨σ₁, added, h⟩ := Option.bind_eq_some_iff.mp h
      obtain ⟨-, -, invitations⟩ := addInvitation_spec added
      obtain ⟨same, -⟩ := addShare_spec h
      rw [← same] at invitations
      exact ⟨_, account, rfl, rfl, rfl, invitations⟩

section
variable {lower address : String → String} {σ σ' : Sharing}

theorem oneSpelling_fresh {documentId invitationId shareId : Uuid}
    {inviterId inviteeEmail token : String} {permission : SharePermission} {expiresInDays : Nat}
    {now : Time}
    (spelled : oneSpelling lower address σ (.shareDocument documentId inviterId inviteeEmail
      permission expiresInDays now invitationId token shareId))
    (free : σ.openInvitations documentId inviteeEmail = []) {i : ShareInvitation}
    (hi : i ∈ σ.invitations.rows) (opened : i.isOpen) (document : i.documentId = documentId) :
    lower i.inviteeEmail ≠ lower inviteeEmail := by
  intro same
  have written := spelled.1 i hi opened document same
  have mem : i ∈ σ.openInvitations documentId inviteeEmail := by
    obtain pending | accepted := opened
    · simp [Sharing.openInvitations, hi, document, written, pending]
    · simp [Sharing.openInvitations, hi, document, written, accepted]
  rw [free] at mem
  exact List.not_mem_nil mem

/-- A step that keeps to one spelling creates no share for a user who has an accepted
invitation to the document. -/
theorem AddressesApart.freshGrantee (h : AddressesApart lower address σ) {step : SharingStep}
    (spelled : oneSpelling lower address σ step) (hstep : σ.step lower step = some σ') :
    freshGrantee lower σ step := by
  intro grantee hgrantee
  cases step with
  | shareDocument documentId inviterId inviteeEmail permission expiresInDays now invitationId token
      shareId =>
    obtain ⟨free, user, -, account, -⟩ := shareDocument_invitation hstep
    simp only [SharingStep.grantee, account, Option.join_some, Option.mem_def,
      Option.map_eq_some_iff] at hgrantee
    obtain ⟨q, rfl, rfl⟩ := hgrantee
    intro i hi accepted document invitee
    refine oneSpelling_fresh spelled free hi (.inr accepted) document ?_
    rw [h.addressed i hi accepted _ invitee, spelled.2 q (scalarOneOrNone_some account)]
  | acceptInvitation token userId userEmail now shareId =>
    obtain ⟨found, hfound, rfl⟩ := Option.map_eq_some_iff.mp hgrantee
    obtain ⟨hfound, admits⟩ := Option.filter_eq_some_iff.mp hfound
    simp only [ShareInvitation.admits, Bool.and_eq_true, decide_eq_true_eq] at admits
    obtain ⟨⟨pending, -⟩, same⟩ := admits
    intro i hi accepted document invitee
    have equal := h.apart i hi found (findToken_mem hfound) (.inr accepted) (.inl pending) document
      ((h.addressed i hi accepted userId invitee).trans (spelled.symm.trans same.symm))
    rw [equal, pending] at accepted
    cases accepted
  | declineInvitation | revokeShare | setDb => cases hgrantee

theorem AddressesApart.step (h : AddressesApart lower address σ) {step : SharingStep}
    (spelled : oneSpelling lower address σ step) (hstep : σ.step lower step = some σ') :
    AddressesApart lower address σ' := by
  cases step with
  | shareDocument documentId inviterId inviteeEmail permission expiresInDays now invitationId token
      shareId =>
    obtain ⟨free, user, i, account, rfl, rfl, invitee, invitations⟩ :=
      shareDocument_invitation hstep
    refine h.of_new invitations (fun x hx opened document =>
      oneSpelling_fresh spelled free hx opened document) fun userId mine => ?_
    obtain ⟨q, rfl, rfl⟩ := Option.map_eq_some_iff.mp (invitee.symm.trans mine)
    exact spelled.2 q (scalarOneOrNone_some account)
  | acceptInvitation token userId userEmail now shareId =>
    simp only [Sharing.step, Sharing.acceptInvitation] at hstep
    split at hstep
    · cases hstep
    · rename_i found hfound
      simp only [Option.ite_none_left_eq_some] at hstep
      obtain ⟨pending, hstep⟩ := hstep
      simp only [ne_eq, not_not] at pending
      split at hstep
      · cases hstep
        refine h.of_closing fun i hi opened => ?_
        rw [Table.mem_update] at hi
        exact open_of_update hi opened (by simp [ShareInvitation.isOpen])
      · simp only [Option.ite_none_left_eq_some] at hstep
        obtain ⟨same, hstep⟩ := hstep
        simp only [ne_eq, not_not] at same
        exact h.of_accepted (findToken_mem hfound) pending (same.trans spelled)
          (addShare_spec hstep).1
  | declineInvitation token =>
    simp only [Sharing.step, Sharing.declineInvitation] at hstep
    split at hstep
    · cases hstep
    · simp only [Option.ite_none_left_eq_some] at hstep
      cases hstep.2
      refine h.of_closing fun i hi opened => ?_
      rw [Table.mem_update] at hi
      exact open_of_update hi opened (by simp [ShareInvitation.isOpen])
  | revokeShare shareId revokerId =>
    simp only [Sharing.step, Sharing.revokeShare, Option.bind_eq_bind, Option.bind_eq_some_iff,
      Option.ite_none_left_eq_some, Option.some.injEq] at hstep
    obtain ⟨s, -, _, -, -, rfl⟩ := hstep
    refine h.of_closing fun i hi opened => ?_
    cases origin : s.invitationId with
    | none => simpa only [origin] using hi
    | some id =>
      simp only [origin, Table.mem_update] at hi
      exact open_of_update hi opened (by simp [ShareInvitation.isOpen])
  | setDb db =>
    cases hstep
    exact h.of_closing fun i hi _ => (Table.mem_deleteWhere.mp hi).1

/-- A run in which each address has one spelling creates no second share. -/
theorem one_spelling_suffices {db : Db}
    (run : Runs.Reaches (Sharing.step lower) (oneSpelling lower address) (Sharing.start db) σ) :
    Runs.Reaches (Sharing.step lower) (freshGrantee lower) (Sharing.start db) σ := by
  have both : AddressesApart lower address σ ∧
      Runs.Reaches (Sharing.step lower) (GigaPdf.freshGrantee lower) (Sharing.start db) σ := by
    induction run with
    | refl => exact ⟨start_addressesApart lower address db, .refl⟩
    | tail _ last ih =>
      obtain ⟨step, spelled, hstep⟩ := last
      obtain ⟨apart, reached⟩ := ih
      exact ⟨apart.step spelled hstep,
        reached.tail ⟨step, apart.freshGrantee spelled hstep, hstep⟩⟩
  exact both.2

end

end GigaPdf
