import GigaPdf.Sharing.Uniqueness

/-!
# Interleaved answers

Accepting, declining and revoking read and check in one statement and write in a later one, without
a lock: what another call has committed in between is not looked at again.
-/

namespace GigaPdf

open Runs

/-- What a call has decided to write. The invitation of a revoked share is written when it has not
been read as revoked. -/
inductive AnswerPlan
  | expire (invitationId : Uuid)
  | accept (invitation : ShareInvitation) (userId : String) (shareId : Uuid)
  | decline (invitationId : Uuid)
  | revoke (shareId : Uuid) (revokerId : String) (invitationId : Option Uuid)
deriving DecidableEq

namespace Sharing

def planAccept (lower : String → String) (σ : Sharing) (token userId userEmail : String)
    (now : Time) (shareId : Uuid) : Option AnswerPlan :=
  match σ.findToken token with
  | none => none
  | some i =>
    if i.status ≠ .pending then none
    else if i.expiresAt < now then some (.expire i.id)
    else if lower i.inviteeEmail ≠ lower userEmail then none
    else some (.accept i userId shareId)

def planDecline (σ : Sharing) (token : String) : Option AnswerPlan :=
  match σ.findToken token with
  | none => none
  | some i => if i.status ≠ .pending then none else some (.decline i.id)

def planRevoke (σ : Sharing) (shareId : Uuid) (revokerId : String) : Option AnswerPlan := do
  let share ← σ.shares.find? shareId
  let _ ← (σ.db.documents.find? share.documentId).filter fun d => d.ownerId = revokerId
  if share.status = .revoked then none
  else
    some (.revoke shareId revokerId
      (share.invitationId.filter fun id =>
        (σ.invitations.find? id).any fun i => i.status ≠ .revoked))

def setStatus (σ : Sharing) (invitationId : Uuid) (status : InvitationStatus) : Sharing :=
  { σ with
    invitations := σ.invitations.update invitationId (fun i => { i with status }) fun _ => rfl }

theorem revoked_id (revokerId : String) (s : DocumentShare) :
    DocumentShare.id { s with status := .revoked, revokedBy := some revokerId } = s.id := rfl

def setRevoked (σ : Sharing) (shareId : Uuid) (revokerId : String) : Sharing :=
  { σ with
    shares := σ.shares.update shareId
      (fun s => { s with status := .revoked, revokedBy := some revokerId })
      (revoked_id revokerId) }

theorem accepted_id (userId : String) (i : ShareInvitation) :
    ShareInvitation.id { i with status := .accepted, inviteeUserId := some userId } = i.id := rfl

/-- The writes of a call, and its commit. -/
def commit (σ : Sharing) : AnswerPlan → Option Sharing
  | .expire invitationId => some (σ.setStatus invitationId .expired)
  | .accept i userId shareId =>
    let σ :=
      { σ with
        invitations := σ.invitations.update i.id
          (fun i => { i with status := .accepted, inviteeUserId := some userId })
          (accepted_id userId) }
    σ.addShare (shareOf i shareId userId)
  | .decline invitationId => some (σ.setStatus invitationId .declined)
  | .revoke shareId revokerId invitationId =>
    some (match invitationId with
      | some id => (σ.setRevoked shareId revokerId).setStatus id .revoked
      | none => σ.setRevoked shareId revokerId)

/-! ## Calls that run undisturbed -/

theorem acceptInvitation_eq (lower : String → String) (σ : Sharing)
    (token userId userEmail : String) (now : Time) (shareId : Uuid) :
    σ.acceptInvitation lower token userId userEmail now shareId =
      (σ.planAccept lower token userId userEmail now shareId).bind σ.commit := by
  rw [acceptInvitation, planAccept]
  cases σ.findToken token with
  | none => rfl
  | some i =>
    simp only
    split
    · rfl
    · split
      · rfl
      · split <;> rfl

theorem declineInvitation_eq (σ : Sharing) (token : String) :
    σ.declineInvitation token = (σ.planDecline token).bind σ.commit := by
  rw [declineInvitation, planDecline]
  cases σ.findToken token with
  | none => rfl
  | some i =>
    simp only
    split <;> rfl

/-- Revoking what is revoked changes nothing. -/
theorem setStatus_of_same {σ : Sharing} {id : Uuid} {status : InvitationStatus}
    (same : ∀ i ∈ σ.invitations.rows, i.id = id → i.status = status) :
    σ.setStatus id status = σ := by
  have rows : σ.invitations.update id (fun i => { i with status }) (fun _ => rfl) =
      σ.invitations := by
    refine Table.ext_rows ?_
    rw [Table.update, Table.rows_updateWhere]
    refine (List.map_congr_left fun i hi => ?_).trans (List.map_id' _)
    split
    · rename_i here
      rw [← same i hi (by simpa using here)]
    · rfl
  rw [setStatus, rows]

theorem revokeShare_eq (σ : Sharing) (shareId : Uuid) (revokerId : String) :
    σ.revokeShare shareId revokerId = (σ.planRevoke shareId revokerId).bind σ.commit := by
  rw [revokeShare, planRevoke]
  cases σ.shares.find? shareId with
  | none => rfl
  | some share =>
    simp only [Option.bind_eq_bind, Option.bind_some]
    cases (σ.db.documents.find? share.documentId).filter fun d => d.ownerId = revokerId with
    | none => rfl
    | some d =>
      simp only [Option.bind_some]
      split
      · rfl
      · simp only [Option.bind_some, commit]
        cases share.invitationId with
        | none => rfl
        | some id =>
          by_cases open_invitation : (σ.invitations.find? id).any fun i => i.status ≠ .revoked
          · rw [Option.filter_some, if_pos open_invitation]
            rfl
          · rw [Option.filter_some, if_neg open_invitation]
            have same : ∀ i ∈ σ.invitations.rows, i.id = id → i.status = .revoked := by
              intro i hi hid
              rw [← hid, Table.find?_of_mem hi] at open_invitation
              simpa using open_invitation
            have unchanged := congrArg Sharing.invitations (setStatus_of_same same)
            simp only [setStatus] at unchanged
            simp only [unchanged]
            rfl

end Sharing

/-! ## Interleaved calls -/

/-- `plans` are the calls in the order in which they have read, each with what it has still to
write; `answered` has an invitation for each call that reported that it answered it. -/
structure SharingRun where
  sharing : Sharing
  plans : List (Option AnswerPlan)
  answered : List Uuid

inductive SharingRunStep
  | acceptInvitation (token userId userEmail : String) (now : Time) (shareId : Uuid)
  | declineInvitation (token : String)
  | revokeShare (shareId : Uuid) (revokerId : String)
  | commit (call : Nat)

def AnswerPlan.answers : AnswerPlan → Option Uuid
  | .accept i _ _ => some i.id
  | .decline invitationId => some invitationId
  | .expire _ | .revoke _ _ _ => none

namespace SharingRun

def step (lower : String → String) (r : SharingRun) : SharingRunStep → Option SharingRun
  | .acceptInvitation token userId userEmail now shareId =>
    some { r with
      plans := r.plans ++ [r.sharing.planAccept lower token userId userEmail now shareId] }
  | .declineInvitation token =>
    some { r with plans := r.plans ++ [r.sharing.planDecline token] }
  | .revokeShare shareId revokerId =>
    some { r with plans := r.plans ++ [r.sharing.planRevoke shareId revokerId] }
  | .commit call =>
    match r.plans[call]? with
    | some (some plan) =>
      (r.sharing.commit plan).map fun sharing =>
        ⟨sharing, r.plans.set call none, plan.answers.toList ++ r.answered⟩
    | some none | none => none

def start (σ : Sharing) : SharingRun := ⟨σ, [], []⟩

/-- An invitation is answered once. -/
structure AnsweredOnce (r : SharingRun) : Prop where
  oneShare : ∀ s ∈ r.sharing.shares.rows, ∀ t ∈ r.sharing.shares.rows, s.status = .active →
    t.status = .active → ∀ id, s.invitationId = some id → t.invitationId = some id → s = t
  accepted : ∀ s ∈ r.sharing.shares.rows, s.status = .active → ∀ id, s.invitationId = some id →
    ∃ i ∈ r.sharing.invitations.rows, i.id = id ∧ i.status = .accepted
  closed : ∀ i ∈ r.sharing.invitations.rows,
    i.status = .declined ∨ i.status = .expired ∨ i.status = .revoked →
      ∀ s ∈ r.sharing.shares.rows, s.invitationId = some i.id → s.status ≠ .active
  reported : r.answered.Nodup

/-- What a call commits as an answer is the first one, and it does not let an invitation expire that
has an active share. -/
def SoundCommit (r : SharingRun) : AnswerPlan → Prop
  | .accept i _ _ => i.id ∉ r.answered
  | .decline id => id ∉ r.answered
  | .expire id => ∀ s ∈ r.sharing.shares.rows, s.invitationId = some id → s.status ≠ .active
  | .revoke _ _ _ => True

def SoundStep (r : SharingRun) : SharingRunStep → Prop
  | .commit call => ∀ plan ∈ r.plans[call]?.join, r.SoundCommit plan
  | .acceptInvitation .. | .declineInvitation .. | .revokeShare .. => True

instance (r : SharingRun) : ∀ plan, Decidable (r.SoundCommit plan)
  | .accept i _ _ => inferInstanceAs (Decidable (i.id ∉ r.answered))
  | .decline id => inferInstanceAs (Decidable (id ∉ r.answered))
  | .expire id => inferInstanceAs (Decidable
      (∀ s ∈ r.sharing.shares.rows, s.invitationId = some id → s.status ≠ .active))
  | .revoke _ _ _ => .isTrue trivial

instance (r : SharingRun) : ∀ a, Decidable (r.SoundStep a)
  | .commit call =>
    inferInstanceAs (Decidable (∀ plan ∈ r.plans[call]?.join, r.SoundCommit plan))
  | .acceptInvitation .. | .declineInvitation .. | .revokeShare .. => .isTrue trivial

end SharingRun

/-! ## What the calls keep -/

namespace Sharing

/-- No share has come from the invitation. -/
def Unshared (σ : Sharing) (invitationId : Uuid) : Prop :=
  ∀ s ∈ σ.shares.rows, s.invitationId ≠ some invitationId

/-- Every share from an invitation is its only one, and the invitation has been answered. -/
structure Settled (σ : Sharing) : Prop where
  issued : ∀ s ∈ σ.shares.rows, ∀ id, s.invitationId = some id →
    ∃ i ∈ σ.invitations.rows, i.id = id ∧ i.documentId = s.documentId ∧ i.status ≠ .pending ∧
      (s.status = .active → i.status = .accepted)
  single : ∀ s ∈ σ.shares.rows, ∀ t ∈ σ.shares.rows, ∀ id, s.invitationId = some id →
    t.invitationId = some id → s = t

variable {σ : Sharing}

theorem start_settled (db : Db) : Settled (start db) :=
  ⟨fun _ mem => (List.not_mem_nil mem).elim, fun _ mem => (List.not_mem_nil mem).elim⟩

theorem Settled.unshared (settled : Settled σ) {i : ShareInvitation}
    (mem : i ∈ σ.invitations.rows) (pending : i.status = .pending) : σ.Unshared i.id := by
  intro s hs origin
  obtain ⟨j, hj, same, -, answered, -⟩ := settled.issued s hs i.id origin
  rw [σ.invitations.eq_of_key_eq hj mem same] at answered
  exact answered pending

/-- The invitation gets a status that its active shares allow. -/
theorem Settled.setInvitation (settled : Settled σ) {id : Uuid}
    (change : ShareInvitation → ShareInvitation) (keeps : ∀ i, (change i).id = i.id)
    (document : ∀ i, (change i).documentId = i.documentId)
    (answered : ∀ i, (change i).status ≠ .pending)
    (allowed : ∀ s ∈ σ.shares.rows, s.invitationId = some id → s.status = .active →
      ∀ i, (change i).status = .accepted) :
    Settled { σ with invitations := σ.invitations.update id change keeps } := by
  refine ⟨fun s hs k origin => ?_, settled.single⟩
  obtain ⟨i, hi, rfl, doc, not_pending, active⟩ := settled.issued s hs k origin
  by_cases here : i.id = id
  · refine ⟨change i, (Table.mem_update keeps).mpr ⟨i, hi, if_pos here⟩, keeps i,
      (document i).trans doc, answered i, fun a => ?_⟩
    exact allowed s hs (here ▸ origin) a i
  · exact ⟨i, (Table.mem_update keeps).mpr ⟨i, hi, if_neg here⟩, rfl, doc, not_pending, active⟩

theorem Settled.setStatus (settled : Settled σ) {id : Uuid} {status : InvitationStatus}
    (answered : status ≠ .pending)
    (inactive : ∀ s ∈ σ.shares.rows, s.invitationId = some id → s.status ≠ .active) :
    Settled (σ.setStatus id status) := by
  exact settled.setInvitation (fun i => { i with status }) (fun _ => rfl) (fun _ => rfl)
    (fun _ => answered) fun s hs origin active => absurd active (inactive s hs origin)

/-- The first share of an accepted invitation. -/
theorem Settled.addShare (settled : Settled σ) {σ' : Sharing} {s : DocumentShare}
    {i : ShareInvitation} (mem : i ∈ σ.invitations.rows) (accepted : i.status = .accepted)
    (origin : s.invitationId = some i.id) (document : s.documentId = i.documentId)
    (unshared : σ.Unshared i.id) (h : σ.addShare s = some σ') : Settled σ' := by
  obtain ⟨invitations, shares⟩ := addShare_spec h
  constructor
  · intro t ht k hk
    rw [invitations]
    obtain rfl | ht := (shares t).mp ht
    · rw [origin, Option.some.injEq] at hk
      exact ⟨i, mem, hk, document.symm, by rw [accepted]; decide, fun _ => accepted⟩
    · exact settled.issued t ht k hk
  · intro t ht u hu k htk huk
    obtain rfl | ht := (shares t).mp ht
    · obtain rfl | hu := (shares u).mp hu
      · rfl
      · rw [origin] at htk
        exact absurd (huk.trans htk.symm) (unshared u hu)
    · obtain rfl | hu := (shares u).mp hu
      · rw [origin] at huk
        exact absurd (htk.trans huk.symm) (unshared t ht)
      · exact settled.single t ht u hu k htk huk

theorem mem_setStatus {i : ShareInvitation} (mem : i ∈ σ.invitations.rows)
    (status : InvitationStatus) :
    { i with status } ∈ (σ.setStatus i.id status).invitations.rows := by
  rw [setStatus, Table.mem_update]
  exact ⟨i, mem, if_pos rfl⟩

theorem mem_setRevoked {shareId : Uuid} {revokerId : String} {s : DocumentShare}
    (mem : s ∈ σ.shares.rows) : ∃ t ∈ (σ.setRevoked shareId revokerId).shares.rows,
      t.id = s.id ∧ t.invitationId = s.invitationId := by
  simp only [setRevoked, Table.mem_update]
  refine ⟨_, ⟨s, mem, rfl⟩, ?_⟩
  split <;> exact ⟨rfl, rfl⟩

/-- Where a share comes from that is there when one is revoked. -/
theorem of_mem_setRevoked {shareId : Uuid} {revokerId : String} {t : DocumentShare}
    (mem : t ∈ (σ.setRevoked shareId revokerId).shares.rows) : ∃ s ∈ σ.shares.rows,
      s.id = t.id ∧ s.invitationId = t.invitationId ∧ s.documentId = t.documentId ∧
        (t.status = .active → s = t ∧ s.id ≠ shareId) := by
  rw [setRevoked, Table.mem_update] at mem
  obtain ⟨s, hs, rfl⟩ := mem
  split
  · exact ⟨s, hs, rfl, rfl, rfl, fun active => by cases active⟩
  · rename_i other
    exact ⟨s, hs, rfl, rfl, rfl, fun _ => ⟨rfl, other⟩⟩

theorem Settled.setRevoked (settled : Settled σ) (shareId : Uuid) (revokerId : String) :
    Settled (σ.setRevoked shareId revokerId) := by
  constructor
  · intro t ht k hk
    obtain ⟨s, hs, -, origin, document, active⟩ := of_mem_setRevoked ht
    obtain ⟨i, hi, same, doc, answered, accepted⟩ := settled.issued s hs k (origin.trans hk)
    refine ⟨i, hi, same, doc.trans document, answered, fun a => accepted ?_⟩
    rw [(active a).1]
    exact a
  · intro t ht u hu k htk huk
    obtain ⟨s, hs, ids, origin_s, -, -⟩ := of_mem_setRevoked ht
    obtain ⟨v, hv, idv, origin_v, -, -⟩ := of_mem_setRevoked hu
    have same := settled.single s hs v hv k (origin_s.trans htk) (origin_v.trans huk)
    refine Table.eq_of_key_eq _ ht hu ?_
    rw [← ids, ← idv, same]

/-- What is known of a call that has still to write. -/
def Planned (σ : Sharing) (answered : List Uuid) : AnswerPlan → Prop
  | .expire id => (∃ i ∈ σ.invitations.rows, i.id = id) ∧ (id ∉ answered → σ.Unshared id)
  | .accept i _ _ => (∃ j ∈ σ.invitations.rows, j.id = i.id ∧ j.documentId = i.documentId) ∧
      (i.id ∉ answered → σ.Unshared i.id)
  | .decline id => id ∉ answered → σ.Unshared id
  | .revoke shareId _ invitationId => ∀ id ∈ invitationId,
      ∃ s ∈ σ.shares.rows, s.id = shareId ∧ s.invitationId = some id

theorem planAccept_planned (settled : Settled σ) (answered : List Uuid)
    {lower : String → String} {token userId userEmail : String} {now : Time} {shareId : Uuid}
    {plan : AnswerPlan}
    (h : σ.planAccept lower token userId userEmail now shareId = some plan) :
    Planned σ answered plan := by
  rw [planAccept] at h
  cases found : σ.findToken token with
  | none =>
    rw [found] at h
    cases h
  | some i =>
    have mem := findToken_mem found
    simp only [found] at h
    split at h
    · cases h
    · rename_i pending
      have unshared := settled.unshared mem (not_not.mp pending)
      split at h
      · cases h
        exact ⟨⟨i, mem, rfl⟩, fun _ => unshared⟩
      · split at h
        · cases h
        · cases h
          exact ⟨⟨i, mem, rfl, rfl⟩, fun _ => unshared⟩

theorem planDecline_planned (settled : Settled σ) (answered : List Uuid) {token : String}
    {plan : AnswerPlan} (h : σ.planDecline token = some plan) : Planned σ answered plan := by
  rw [planDecline] at h
  cases found : σ.findToken token with
  | none =>
    rw [found] at h
    cases h
  | some i =>
    simp only [found] at h
    split at h
    · cases h
    · rename_i pending
      cases h
      exact fun _ => settled.unshared (findToken_mem found) (not_not.mp pending)

theorem planRevoke_planned {answered : List Uuid} {shareId : Uuid} {revokerId : String}
    {plan : AnswerPlan} (h : σ.planRevoke shareId revokerId = some plan) :
    Planned σ answered plan := by
  obtain ⟨share, found, h⟩ := Option.bind_eq_some_iff.mp h
  obtain ⟨d, -, h⟩ := Option.bind_eq_some_iff.mp h
  obtain ⟨mem, key⟩ := Table.find?_eq_some.mp found
  split at h
  · cases h
  · cases h
    intro id origin
    exact ⟨share, mem, key, (Option.filter_eq_some_iff.mp origin).1⟩

theorem Unshared.inactive {id : Uuid} (unshared : σ.Unshared id) :
    ∀ s ∈ σ.shares.rows, s.invitationId = some id → s.status ≠ .active :=
  fun s hs origin => absurd origin (unshared s hs)

/-- The rows that were there stay, with their ids and what they belong to. -/
theorem commit_rows {σ' : Sharing} {plan : AnswerPlan} (h : σ.commit plan = some σ') :
    (∀ i ∈ σ.invitations.rows, ∃ j ∈ σ'.invitations.rows,
      j.id = i.id ∧ j.documentId = i.documentId) ∧
    (∀ s ∈ σ.shares.rows, ∃ t ∈ σ'.shares.rows,
      t.id = s.id ∧ t.invitationId = s.invitationId) ∧
    ∀ t ∈ σ'.shares.rows, (∃ s ∈ σ.shares.rows, s.invitationId = t.invitationId) ∨
      t.invitationId = plan.answers ∧ plan.answers ≠ none := by
  have updated : ∀ (id : Uuid) (change : ShareInvitation → ShareInvitation)
      (keeps : ∀ i, (change i).id = i.id) (_ : ∀ i, (change i).documentId = i.documentId),
      ∀ i ∈ σ.invitations.rows, ∃ j ∈ (σ.invitations.update id change keeps).rows,
        j.id = i.id ∧ j.documentId = i.documentId := by
    intro id change keeps document i hi
    refine ⟨_, (Table.mem_update keeps).mpr ⟨i, hi, rfl⟩, ?_⟩
    split
    · exact ⟨keeps i, document i⟩
    · exact ⟨rfl, rfl⟩
  have status : ∀ (id : Uuid) (status : InvitationStatus), ∀ i ∈ σ.invitations.rows,
      ∃ j ∈ (σ.setStatus id status).invitations.rows, j.id = i.id ∧ j.documentId = i.documentId :=
    fun id status => updated id (fun i => { i with status }) (fun _ => rfl) fun _ => rfl
  have same : ∀ s ∈ σ.shares.rows, ∃ t ∈ σ.shares.rows,
      t.id = s.id ∧ t.invitationId = s.invitationId := fun s hs => ⟨s, hs, rfl, rfl⟩
  cases plan with
  | expire id =>
    cases h
    exact ⟨status id _, same, fun t ht => Or.inl ⟨t, ht, rfl⟩⟩
  | accept i userId shareId =>
    obtain ⟨invitations, shares⟩ := addShare_spec h
    rw [invitations]
    refine ⟨updated i.id
        (fun i => { i with status := .accepted, inviteeUserId := some userId }) (fun _ => rfl)
        fun _ => rfl, fun s hs => ⟨s, (shares s).mpr (Or.inr hs), rfl, rfl⟩, ?_⟩
    intro t ht
    obtain rfl | old := (shares t).mp ht
    · exact Or.inr ⟨rfl, Option.some_ne_none _⟩
    · exact Or.inl ⟨t, old, rfl⟩
  | decline id =>
    cases h
    exact ⟨status id _, same, fun t ht => Or.inl ⟨t, ht, rfl⟩⟩
  | revoke shareId revokerId invitationId =>
    have back : ∀ t ∈ (σ.setRevoked shareId revokerId).shares.rows,
        ∃ s ∈ σ.shares.rows, s.invitationId = t.invitationId := by
      intro t ht
      obtain ⟨s, hs, -, origin, -⟩ := of_mem_setRevoked ht
      exact ⟨s, hs, origin⟩
    cases invitationId with
    | none =>
      cases h
      exact ⟨fun i hi => ⟨i, hi, rfl, rfl⟩, fun s hs => mem_setRevoked hs,
        fun t ht => Or.inl (back t ht)⟩
    | some id =>
      cases h
      exact ⟨status id _, fun s hs => mem_setRevoked hs, fun t ht => Or.inl (back t ht)⟩

/-- A commit of another call takes nothing from what is known of a call. -/
theorem Planned.commit {σ' : Sharing} {answered : List Uuid} {plan other : AnswerPlan}
    (planned : Planned σ answered other) (h : σ.commit plan = some σ') :
    Planned σ' (plan.answers.toList ++ answered) other := by
  obtain ⟨invitations, shares, back⟩ := commit_rows h
  have unshared : ∀ {id : Uuid}, (id ∉ answered → σ.Unshared id) →
      id ∉ plan.answers.toList ++ answered → σ'.Unshared id := by
    intro id before absent t ht origin
    have old := before fun mem => absent (List.mem_append_right _ mem)
    obtain ⟨s, hs, same⟩ | ⟨new, -⟩ := back t ht
    · exact old s hs (same.trans origin)
    · rw [origin] at new
      exact absent (List.mem_append_left _ (by rw [← new]; exact List.mem_singleton.mpr rfl))
  cases other with
  | expire id =>
    obtain ⟨⟨i, hi, rfl⟩, before⟩ := planned
    obtain ⟨j, hj, same, -⟩ := invitations i hi
    exact ⟨⟨j, hj, same⟩, unshared before⟩
  | accept i userId shareId =>
    obtain ⟨⟨j, hj, same, document⟩, before⟩ := planned
    obtain ⟨k, hk, same_k, document_k⟩ := invitations j hj
    exact ⟨⟨k, hk, same_k.trans same, document_k.trans document⟩, unshared before⟩
  | decline id => exact unshared planned
  | revoke shareId revokerId invitationId =>
    intro id mem
    obtain ⟨s, hs, key, origin⟩ := planned id mem
    obtain ⟨t, ht, key_t, origin_t⟩ := shares s hs
    exact ⟨t, ht, key_t.trans key, origin_t.trans origin⟩

/-- The condition on a commit, from what the calls have answered so far. -/
theorem Settled.commit {σ' : Sharing} {plans : List (Option AnswerPlan)} {answered : List Uuid}
    {plan : AnswerPlan} (settled : Settled σ) (planned : Planned σ answered plan)
    (sound : SharingRun.SoundCommit ⟨σ, plans, answered⟩ plan) (h : σ.commit plan = some σ') :
    Settled σ' := by
  cases plan with
  | expire id =>
    cases h
    exact settled.setStatus (by decide) sound
  | accept i userId shareId =>
    obtain ⟨⟨j, hj, same, document⟩, unshared⟩ := planned
    have first : σ.Unshared j.id := same ▸ unshared sound
    have accepted := @Settled.setInvitation σ settled i.id
      (fun i => { i with status := .accepted, inviteeUserId := some userId }) (fun _ => rfl)
      (fun _ => rfl) (fun _ absurd => by cases absurd) fun _ _ _ _ _ => rfl
    have mem : { j with status := .accepted, inviteeUserId := some userId } ∈
        (σ.invitations.update i.id
          (fun i => { i with status := .accepted, inviteeUserId := some userId })
          fun _ => rfl).rows := (Table.mem_update _).mpr ⟨j, hj, if_pos same⟩
    exact accepted.addShare mem rfl (congrArg some same.symm) document.symm first h
  | decline id =>
    cases h
    exact settled.setStatus (by decide) (planned sound).inactive
  | revoke shareId revokerId invitationId =>
    have revoked := settled.setRevoked shareId revokerId
    cases invitationId with
    | none =>
      cases h
      exact revoked
    | some id =>
      cases h
      obtain ⟨s, hs, key, origin⟩ := planned id rfl
      refine revoked.setStatus (by decide) fun t ht origin_t active => ?_
      obtain ⟨u, hu, -, origin_u, -, same⟩ := of_mem_setRevoked ht
      have only : u = s := settled.single u hu s hs id (origin_u.trans origin_t) origin
      exact (same active).2 (only ▸ key)

theorem Settled.addInvitation (settled : Settled σ) {σ' : Sharing} {i : ShareInvitation}
    (h : σ.addInvitation i = some σ') : Settled σ' := by
  obtain ⟨shares, -, invitations⟩ := addInvitation_spec h
  constructor
  · intro s hs k hk
    rw [shares] at hs
    obtain ⟨j, hj, rest⟩ := settled.issued s hs k hk
    exact ⟨j, (invitations j).mpr (Or.inr hj), rest⟩
  · intro s hs t ht
    rw [shares] at hs ht
    exact settled.single s hs t ht

theorem Settled.shareDocument (settled : Settled σ) {σ' : Sharing}
    {documentId invitationId shareId : Uuid} {inviterId inviteeEmail token : String}
    {permission : SharePermission} {expiresInDays : Nat} {now : Time}
    (h : σ.shareDocument documentId inviterId inviteeEmail permission expiresInDays now
      invitationId token shareId = some σ') : Settled σ' := by
  simp only [Sharing.shareDocument, Option.bind_eq_bind, Option.bind_eq_some_iff,
    Option.ite_none_left_eq_some] at h
  obtain ⟨_, -, _, -, -, user, -, h⟩ := h
  cases user with
  | none => exact settled.addInvitation h
  | some user =>
    obtain ⟨σ₁, added, h⟩ := Option.bind_eq_some_iff.mp h
    obtain ⟨shares, fresh, invitations⟩ := addInvitation_spec added
    refine (settled.addInvitation added).addShare ((invitations _).mpr (Or.inl rfl)) rfl rfl rfl
      ?_ h
    intro s hs origin
    rw [shares] at hs
    obtain ⟨j, hj, same, -⟩ := settled.issued s hs _ origin
    exact fresh j hj same

theorem Settled.setDb (settled : Settled σ) (db : Db) : Settled (σ.setDb db) := by
  constructor
  · intro s hs k hk
    obtain ⟨hs, document⟩ := Table.mem_deleteWhere.mp hs
    obtain ⟨i, hi, same, doc, rest⟩ := settled.issued s hs k hk
    exact ⟨i, Table.mem_deleteWhere.mpr ⟨hi, by rw [doc]; exact document⟩, same, doc, rest⟩
  · intro s hs t ht
    exact settled.single s (Table.mem_deleteWhere.mp hs).1 t (Table.mem_deleteWhere.mp ht).1

/-- Requests that run one after another leave every invitation settled. -/
theorem settled_of_requests {lower : String → String} {db : Db}
    (run : Reaches (Sharing.step lower) always (start db) σ) : Settled σ := by
  apply run.invariant (P := Settled) _ (start_settled db)
  intro σ step σ' settled _ h
  have undisturbed : ∀ {plan : AnswerPlan}, Planned σ [] plan → σ.commit plan = some σ' →
      Settled σ' := by
    intro plan planned h
    refine @Settled.commit _ _ [] _ _ settled planned ?_ h
    cases plan with
    | expire id => exact (planned.2 List.not_mem_nil).inactive
    | accept | decline => exact List.not_mem_nil
    | revoke => trivial
  cases step with
  | shareDocument => exact settled.shareDocument h
  | acceptInvitation =>
    rw [Sharing.step, acceptInvitation_eq] at h
    obtain ⟨plan, planned, h⟩ := Option.bind_eq_some_iff.mp h
    exact undisturbed (planAccept_planned settled [] planned) h
  | declineInvitation =>
    rw [Sharing.step, declineInvitation_eq] at h
    obtain ⟨plan, planned, h⟩ := Option.bind_eq_some_iff.mp h
    exact undisturbed (planDecline_planned settled [] planned) h
  | revokeShare =>
    rw [Sharing.step, revokeShare_eq] at h
    obtain ⟨plan, planned, h⟩ := Option.bind_eq_some_iff.mp h
    exact undisturbed (planRevoke_planned planned) h
  | setDb db =>
    cases h
    exact settled.setDb db

end Sharing

namespace SharingRun

variable {r : SharingRun}

structure Keeps (r : SharingRun) : Prop where
  settled : r.sharing.Settled
  reported : r.answered.Nodup
  planned : ∀ (n : Nat) (plan : AnswerPlan), r.plans[n]? = some (some plan) →
    r.sharing.Planned r.answered plan

theorem Keeps.answeredOnce (keeps : Keeps r) : AnsweredOnce r := by
  refine ⟨fun s hs t ht _ _ id hid tid => keeps.settled.single s hs t ht id hid tid,
    fun s hs active id origin => ?_, fun i hi closed s hs origin active => ?_, keeps.reported⟩
  · obtain ⟨i, hi, same, -, -, accepted⟩ := keeps.settled.issued s hs id origin
    exact ⟨i, hi, same, accepted active⟩
  · obtain ⟨j, hj, same, -, -, accepted⟩ := keeps.settled.issued s hs i.id origin
    rw [r.sharing.invitations.eq_of_key_eq hj hi same] at accepted
    rw [accepted active] at closed
    simp at closed

/-- A call that has read. -/
theorem Keeps.read (keeps : Keeps r) {read : Option AnswerPlan}
    (known : ∀ plan, read = some plan → r.sharing.Planned r.answered plan) :
    Keeps { r with plans := r.plans ++ [read] } := by
  refine ⟨keeps.settled, keeps.reported, fun n plan h => ?_⟩
  rw [List.getElem?_append] at h
  split at h
  · exact keeps.planned n plan h
  · rw [List.getElem?_singleton] at h
    split at h
    · exact known plan (Option.some.inj h)
    · cases h

theorem Keeps.commit (keeps : Keeps r) {call : Nat} {plan : AnswerPlan} {sharing : Sharing}
    (there : r.plans[call]? = some (some plan)) (h : r.sharing.commit plan = some sharing) :
    (r.SoundCommit plan →
      Keeps ⟨sharing, r.plans.set call none, plan.answers.toList ++ r.answered⟩) ∧
    (AnsweredOnce ⟨sharing, r.plans.set call none, plan.answers.toList ++ r.answered⟩ →
      r.SoundCommit plan) := by
  have planned := keeps.planned call plan there
  constructor
  · intro sound
    refine ⟨keeps.settled.commit planned sound h, ?_, fun n other hn => ?_⟩
    · cases plan with
      | expire | revoke => exact keeps.reported
      | accept i => exact List.nodup_cons.mpr ⟨sound, keeps.reported⟩
      | decline id => exact List.nodup_cons.mpr ⟨sound, keeps.reported⟩
    · rw [List.getElem?_set] at hn
      split at hn
      · split at hn <;> cases hn
      · exact (keeps.planned n other hn).commit h
  · intro once
    cases plan with
    | expire id =>
      cases h
      obtain ⟨⟨i, hi, rfl⟩, -⟩ := planned
      exact once.closed { i with status := .expired } (Sharing.mem_setStatus hi .expired)
        (Or.inr (Or.inl rfl))
    | accept i => exact (List.nodup_cons.mp once.reported).1
    | decline id => exact (List.nodup_cons.mp once.reported).1
    | revoke => trivial

theorem Keeps.step_iff {lower : String → String} {r' : SharingRun} (keeps : Keeps r)
    {a : SharingRunStep} (h : r.step lower a = some r') :
    (SoundStep r a → Keeps r') ∧ (AnsweredOnce r' → SoundStep r a) := by
  cases a with
  | acceptInvitation =>
    cases h
    exact ⟨fun _ => keeps.read fun plan planned =>
      Sharing.planAccept_planned keeps.settled _ planned, fun _ => trivial⟩
  | declineInvitation =>
    cases h
    exact ⟨fun _ => keeps.read fun plan planned =>
      Sharing.planDecline_planned keeps.settled _ planned, fun _ => trivial⟩
  | revokeShare =>
    cases h
    exact ⟨fun _ => keeps.read fun plan planned => Sharing.planRevoke_planned planned,
      fun _ => trivial⟩
  | commit call =>
    simp only [step] at h
    split at h
    · rename_i plan there
      obtain ⟨sharing, committed, rfl⟩ := Option.map_eq_some_iff.mp h
      have sound : SoundStep r (.commit call) ↔ r.SoundCommit plan := by
        simp [SoundStep, there]
      rw [sound]
      exact keeps.commit there committed
    · cases h
    · cases h

/-- **An invitation is answered once** as long as no call commits an answer after another one, or an
expiry over an active share; the first that does breaks it. -/
theorem invitations_answered_once {lower : String → String} {db : Db} {σ : Sharing}
    (requests : Reaches (Sharing.step lower) always (Sharing.start db) σ)
    (run : Reaches (step lower) SoundStep (start σ) r) :
    AnsweredOnce r ∧ ∀ a r', r.step lower a = some r' → (AnsweredOnce r' ↔ SoundStep r a) := by
  have first : Keeps (start σ) :=
    ⟨Sharing.settled_of_requests requests, List.nodup_nil, fun n plan h => by
      rw [start, List.getElem?_nil] at h
      cases h⟩
  have keeps : Keeps r := run.invariant (P := Keeps)
    (fun r a r' keeps sound h => (keeps.step_iff h).1 sound) first
  refine ⟨keeps.answeredOnce, fun a r' h => ?_⟩
  obtain ⟨sound, only⟩ := keeps.step_iff h
  exact ⟨only, fun sound_step => (sound sound_step).answeredOnce⟩

end SharingRun

def evesInvitation : ShareInvitation where
  id := uuid "inv"
  documentId := uuid "note"
  inviterId := "ana"
  inviteeEmail := "eve@example.org"
  inviteeUserId := none
  token := "t"
  permission := .edit
  status := .pending
  expiresAt := days 7

/-- Eve has no account yet, and her invitation waits. -/
def evesSharing : Sharing :=
  { Sharing.start sharingDb with invitations := ⟨[evesInvitation], by decide⟩ }

theorem evesSharing_reached :
    Reaches (Sharing.step asciiLower) always (Sharing.start sharingDb) evesSharing :=
  .single ⟨anaShares "eve@example.org" (uuid "inv") "t" (uuid "unused"), trivial, rfl⟩

def eveAccepts (now : Time) (shareId : Uuid) : SharingRunStep :=
  .acceptInvitation "t" "eve" "eve@example.org" now shareId

/-- Eve accepts, her refusal comes too late, and the share is revoked. -/
theorem invitations_answered_once_in_turn : ∃ r, SharingRun.AnsweredOnce r ∧
    r.answered = [uuid "inv"] ∧ r.plans = [none, none, none] := by
  obtain ⟨r, run, answered, plans⟩ := exists_reaches_of_runAll (SharingRun.step asciiLower)
    SharingRun.SoundStep (SharingRun.start evesSharing)
    [eveAccepts 1 (uuid "share"), .commit 0, .revokeShare (uuid "share") "ana",
      .declineInvitation "t", .commit 1]
    (fun r => r.answered = [uuid "inv"] ∧ r.plans = [none, none, none]) (by decide)
  exact ⟨r, (SharingRun.invitations_answered_once evesSharing_reached run).1, answered, plans⟩

/-- Eve accepts twice at the same time: both calls succeed, and she has two shares. -/
theorem invitation_answered_twice : ∃ r,
    Reaches (SharingRun.step asciiLower) always (SharingRun.start evesSharing) r ∧
    (r.sharing.activeShares (uuid "note") "eve").length = 2 ∧
    r.answered = [uuid "inv", uuid "inv"] ∧ ¬SharingRun.AnsweredOnce r := by
  obtain ⟨r, run, shares, answered⟩ := exists_reaches_of_runAll (SharingRun.step asciiLower)
    always (SharingRun.start evesSharing)
    [eveAccepts 1 (uuid "share1"), eveAccepts 1 (uuid "share2"), .commit 0, .commit 1]
    (fun r => (r.sharing.activeShares (uuid "note") "eve").length = 2 ∧
      r.answered = [uuid "inv", uuid "inv"]) (by decide)
  refine ⟨r, run, shares, answered, fun once => ?_⟩
  have nodup := once.reported
  rw [answered] at nodup
  exact absurd nodup (by decide)

end GigaPdf
