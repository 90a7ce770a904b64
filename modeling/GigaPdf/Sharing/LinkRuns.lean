import GigaPdf.Sharing.PublicLinks

/-!
# Public links along runs

Along runs in which creations do not overtake each other and a revocation is not overtaken, a
document has one active link at most, what a creation returns resolves until it expires or is
revoked, and after a revocation nothing resolves until the next creation.
-/

namespace GigaPdf

open PublicSharing

theorem mem_activeLinks {σ : PublicSharing} {documentId : Uuid} {s : PublicLink} :
    s ∈ σ.activeLinks documentId ↔
      s ∈ σ.links.rows ∧ s.documentId = documentId ∧ s.status = .active := by
  simp [PublicSharing.activeLinks]

/-! ## What a step does -/

structure LinksKept (σ σ' : PublicSharing) : Prop where
  links : σ'.links = σ.links
  db : σ'.db = σ.db
  later : σ.now ≤ σ'.now

structure LinkAdded (σ σ' : PublicSharing) (s : PublicLink) : Prop where
  links : ∀ x, x ∈ σ'.links.rows ↔ x = s ∨ x ∈ σ.links.rows
  named : s.shareToken ≠ ""
  fresh : ∀ x ∈ σ.links.rows, x.shareToken ≠ s.shareToken
  active : s.status = .active
  valid : s.expired σ.now = false
  db : σ'.db = σ.db
  now : σ'.now = σ.now

structure LinkRevoked (σ σ' : PublicSharing) (shareId : Uuid) : Prop where
  active : ∀ x, x.status = .active →
    (x ∈ σ'.links.rows ↔ x ∈ σ.links.rows ∧ x.id ≠ shareId)
  old : ∀ x ∈ σ'.links.rows, ∃ y ∈ σ.links.rows, x.id = y.id ∧ x.shareToken = y.shareToken
  db : σ'.db = σ.db
  now : σ'.now = σ.now

theorem newLink_valid (σ : PublicSharing) (documentId : Uuid) (ownerId : String)
    (expiresInDays : Option Nat) (token : String) (shareId : Uuid) :
    (σ.newLink documentId ownerId expiresInDays token shareId).expired σ.now = false := by
  cases expiresInDays with
  | none => rfl
  | some n =>
    by_cases zero : n = 0
    · subst zero
      rfl
    · have expires : (σ.newLink documentId ownerId (some n) token shareId).expiresAt =
          some (σ.now + days n) := by
        simp [newLink, Option.filter_some, zero]
      have positive : 0 < days n := by
        have : (0 : Int) < (n : Int) * 24 * 60 * 60 := by omega
        exact this
      rw [PublicLink.expired, expires, Option.any_some, decide_eq_false_iff_not, not_le]
      exact lt_add_of_pos_right _ positive

theorem insertLink_spec {σ σ' : PublicSharing} {s : PublicLink} (h : σ.insertLink s = some σ')
    (active : s.status = .active) (valid : s.expired σ.now = false) : LinkAdded σ σ' s := by
  simp only [insertLink, Option.ite_none_left_eq_some, not_or] at h
  obtain ⟨⟨named, fresh, -⟩, h⟩ := h
  obtain ⟨links, inserted, rfl⟩ := Option.map_eq_some_iff.mp h
  refine ⟨fun x => Table.mem_insert? inserted, named, fun x hx same => ?_, active, valid, rfl, rfl⟩
  apply fresh
  rw [List.any_eq_true]
  exact ⟨x, hx, by simpa using same⟩

theorem revokeLink_spec {σ σ' : PublicSharing} {shareId : Uuid} {ownerId : String}
    (h : σ.revokeLink shareId ownerId = some σ') : LinkRevoked σ σ' shareId := by
  simp only [revokeLink, Option.ite_none_left_eq_some, Option.some.injEq] at h
  obtain ⟨present, rfl⟩ := h
  refine ⟨fun x hx => ?_, fun x hx => ?_, rfl, rfl⟩
  · rw [Table.mem_update]
    constructor
    · rintro ⟨y, hy, rfl⟩
      by_cases same : y.id = shareId
      · rw [if_pos same] at hx
        cases hx
      · rw [if_neg same]
        exact ⟨hy, same⟩
    · rintro ⟨hx, other⟩
      exact ⟨x, hx, if_neg other⟩
  · rw [Table.mem_update] at hx
    obtain ⟨y, hy, rfl⟩ := hx
    refine ⟨y, hy, ?_⟩
    by_cases same : y.id = shareId
    · rw [if_pos same]
      exact ⟨rfl, rfl⟩
    · rw [if_neg same]
      exact ⟨rfl, rfl⟩

theorem openCall_kept {σ σ' : PublicSharing} {call : Nat} {request : LinkRequest}
    (h : σ.openCall call request = some σ') : LinksKept σ σ' := by
  obtain ⟨calls, -, rfl⟩ := Option.map_eq_some_iff.mp h
  exact ⟨rfl, rfl, le_refl _⟩

/-- All that a step can do to the links. -/
theorem link_step_cases {σ σ' : PublicSharing} {a : LinkStep} (h : σ.step a = some σ') :
    (LinksKept σ σ' ∧ σ.inserts a = none ∧ σ.revokes a = none) ∨
    (∃ s, σ.inserts a = some s ∧ σ.revokes a = none ∧ LinkAdded σ σ' s) ∨
    (∃ target, σ.revokes a = some target ∧ σ.inserts a = none ∧ LinkRevoked σ σ' target.2) ∨
    ∃ db, a = .setDb db ∧ σ' = σ.setDb db := by
  cases a with
  | beginCreate call documentId ownerId expiresInDays =>
    refine .inl ⟨?_, rfl, rfl⟩
    simp only [step] at h
    split at h
    · cases h
    · cases h
      exact ⟨rfl, rfl, le_refl _⟩
    · exact openCall_kept h
  | finishCreate call token shareId =>
    simp only [step] at h
    split at h
    · rename_i documentId ownerId expiresInDays request
      refine .inr (.inl ⟨_, by rw [inserts, request], rfl, ?_⟩)
      have added := insertLink_spec h rfl (newLink_valid σ documentId ownerId expiresInDays token
        shareId)
      exact ⟨added.links, added.named, added.fresh, rfl, added.valid, added.db, added.now⟩
    · cases h
  | beginRevoke call documentId ownerId =>
    refine .inl ⟨?_, rfl, rfl⟩
    obtain ⟨share, -, h⟩ := Option.bind_eq_some_iff.mp h
    exact openCall_kept h
  | finishRevoke call =>
    simp only [step] at h
    split at h
    · rename_i documentId ownerId shareId request
      refine .inr (.inr (.inl ⟨(documentId, shareId), by rw [revokes, request], rfl, ?_⟩))
      have revoked := revokeLink_spec h
      exact ⟨revoked.active, revoked.old, revoked.db, revoked.now⟩
    · cases h
  | abandon call =>
    cases h
    exact .inl ⟨⟨rfl, rfl, le_refl _⟩, rfl, rfl⟩
  | advance seconds =>
    cases h
    have later : σ.now ≤ σ.now + (seconds : Time) := le_add_of_nonneg_right (Int.natCast_nonneg _)
    exact .inl ⟨⟨rfl, rfl, later⟩, rfl, rfl⟩
  | setDb db =>
    cases h
    exact .inr (.inr (.inr ⟨db, rfl, rfl⟩))

/-! ## Tokens -/

/-- Tokens are not empty, and no two links have the same. -/
structure TokensSound (σ : PublicSharing) : Prop where
  named : ∀ s ∈ σ.links.rows, s.shareToken ≠ ""
  unique : ∀ s ∈ σ.links.rows, ∀ s' ∈ σ.links.rows, s.shareToken = s'.shareToken → s = s'

theorem TokensSound.step {σ σ' : PublicSharing} (hσ : TokensSound σ) {a : LinkStep}
    (h : σ.step a = some σ') : TokensSound σ' := by
  obtain ⟨kept, -, -⟩ | ⟨s, -, -, added⟩ | ⟨target, -, -, revoked⟩ | ⟨db, -, rfl⟩ :=
    link_step_cases h
  · constructor
    · rw [kept.links]
      exact hσ.named
    · rw [kept.links]
      exact hσ.unique
  · constructor
    · intro x hx
      obtain rfl | hx := (added.links x).mp hx
      · exact added.named
      · exact hσ.named x hx
    · intro x hx y hy same
      obtain rfl | hx := (added.links x).mp hx <;> obtain rfl | hy := (added.links y).mp hy
      · rfl
      · exact absurd same.symm (added.fresh y hy)
      · exact absurd same (added.fresh x hx)
      · exact hσ.unique x hx y hy same
  · constructor
    · intro x hx
      obtain ⟨y, hy, -, same⟩ := revoked.old x hx
      rw [same]
      exact hσ.named y hy
    · intro x hx x' hx' same
      obtain ⟨y, hy, id, token⟩ := revoked.old x hx
      obtain ⟨y', hy', id', token'⟩ := revoked.old x' hx'
      have one : y = y' := hσ.unique y hy y' hy' (token.symm.trans (same.trans token'))
      apply σ'.links.eq_of_key_eq hx hx'
      rw [id, id', one]
  · constructor
    · intro x hx
      exact hσ.named x (Table.mem_deleteWhere.mp hx).1
    · intro x hx y hy
      exact hσ.unique x (Table.mem_deleteWhere.mp hx).1 y (Table.mem_deleteWhere.mp hy).1

theorem start_tokensSound (db : Db) (now : Time) : TokensSound (start db now) where
  named _ hs := (List.not_mem_nil hs).elim
  unique _ hs := (List.not_mem_nil hs).elim

/-- An active link resolves to itself until it expires. -/
theorem TokensSound.resolves {σ : PublicSharing} (hσ : TokensSound σ) {s : PublicLink}
    (mem : s ∈ σ.links.rows) (active : s.status = .active) {d : StoredDocument}
    (document : σ.liveDocument s.documentId = some d) (valid : s.expired σ.now = false) :
    σ.getActivePublicShare s.shareToken = .ok (s, d) := by
  rw [getActivePublicShare, if_neg (hσ.named s mem)]
  cases row : σ.links.rows.findSome? fun x =>
      if x.shareToken = s.shareToken && x.status = .active then
        (σ.liveDocument x.documentId).map fun d => (x, d)
      else none with
  | none =>
    have missed := List.findSome?_eq_none_iff.mp row s mem
    simp [active, document] at missed
  | some found =>
    obtain ⟨x, hx, hit⟩ := List.exists_of_findSome?_eq_some row
    simp only [Bool.and_eq_true, decide_eq_true_eq, Option.ite_none_right_eq_some] at hit
    obtain ⟨⟨same, -⟩, hit⟩ := hit
    have this : x = s := hσ.unique x hx s mem same
    subst this
    rw [document, Option.map_some, Option.some.injEq] at hit
    subst hit
    simp [valid]

theorem active_of_resolves {σ : PublicSharing} {token : String} {s : PublicLink}
    {d : StoredDocument} (h : σ.getActivePublicShare token = .ok (s, d)) :
    s ∈ σ.activeLinks s.documentId ∧ s.expired σ.now = false := by
  rw [getActivePublicShare] at h
  split at h
  · cases h
  · simp only at h
    split at h
    · cases h
    · rename_i row
      split at h
      · cases h
      · rename_i valid
        cases h
        obtain ⟨x, hx, hit⟩ := List.exists_of_findSome?_eq_some row
        simp only [Bool.and_eq_true, decide_eq_true_eq, Option.ite_none_right_eq_some] at hit
        obtain ⟨⟨-, active⟩, hit⟩ := hit
        obtain ⟨d', -, pair⟩ := Option.map_eq_some_iff.mp hit
        cases pair
        exact ⟨mem_activeLinks.mpr ⟨hx, rfl, active⟩, Bool.eq_false_iff.mpr valid⟩

/-! ## One active link -/

def OneActiveLink (σ : PublicSharing) : Prop :=
  ∀ s ∈ σ.links.rows, ∀ s' ∈ σ.links.rows, s.status = .active → s'.status = .active →
    s.documentId = s'.documentId → s = s'

theorem OneActiveLink.step {σ σ' : PublicSharing} (hσ : OneActiveLink σ) {a : LinkStep}
    (sound : soundStep σ a) (h : σ.step a = some σ') : OneActiveLink σ' := by
  obtain ⟨kept, -, -⟩ | ⟨s, inserted, -, added⟩ | ⟨target, -, -, revoked⟩ | ⟨db, -, rfl⟩ :=
    link_step_cases h
  · intro x hx y hy
    rw [kept.links] at hx hy
    exact hσ x hx y hy
  · have none_active : σ.activeLinks s.documentId = [] := sound.2.1 s inserted
    have alone : ∀ x ∈ σ.links.rows, x.status = .active → x.documentId ≠ s.documentId := by
      intro x hx active document
      have mem : x ∈ σ.activeLinks s.documentId := mem_activeLinks.mpr ⟨hx, document, active⟩
      rw [none_active] at mem
      cases mem
    intro x hx y hy active active' document
    obtain rfl | hx := (added.links x).mp hx <;> obtain rfl | hy := (added.links y).mp hy
    · rfl
    · exact absurd document.symm (alone y hy active')
    · exact absurd document (alone x hx active)
    · exact hσ x hx y hy active active' document
  · intro x hx y hy active active'
    have hx := ((revoked.active x active).mp hx).1
    have hy := ((revoked.active y active').mp hy).1
    exact hσ x hx y hy active active'
  · intro x hx y hy
    exact hσ x (Table.mem_deleteWhere.mp hx).1 y (Table.mem_deleteWhere.mp hy).1

theorem OneActiveLink.length_le {σ : PublicSharing} (hσ : OneActiveLink σ) (documentId : Uuid) :
    (σ.activeLinks documentId).length ≤ 1 := by
  apply length_le_one_of_unique
  · exact (List.Nodup.of_map _ σ.links.unique).filter _
  · intro s hs s' hs'
    obtain ⟨mem, document, active⟩ := mem_activeLinks.mp hs
    obtain ⟨mem', document', active'⟩ := mem_activeLinks.mp hs'
    exact hσ s mem s' mem' active active' (document.trans document'.symm)

/-! ## From a creation to a revocation -/

/-- The step does not revoke the link, and leaves its document in the database. -/
def undisturbed (s : PublicLink) (σ : PublicSharing) (a : LinkStep) : Prop :=
  (∀ target ∈ σ.revokes a, target.2 ≠ s.id) ∧
    ∀ db, a = .setDb db → (db.documents.find? s.documentId).isSome = true

theorem undisturbed_active {σ σ' : PublicSharing} {s : PublicLink} {a : LinkStep}
    (calm : undisturbed s σ a) (h : σ.step a = some σ') (active : s.status = .active)
    (mem : s ∈ σ.links.rows) : s ∈ σ'.links.rows := by
  obtain ⟨kept, -, -⟩ | ⟨x, -, -, added⟩ | ⟨target, hit, -, revoked⟩ | ⟨db, rfl, rfl⟩ :=
    link_step_cases h
  · rw [kept.links]
    exact mem
  · exact (added.links s).mpr (.inr mem)
  · exact (revoked.active s active).mpr ⟨mem, fun same => calm.1 target hit same.symm⟩
  · have present := calm.2 db rfl
    rw [setDb, Table.mem_deleteWhere]
    refine ⟨mem, ?_⟩
    rw [Option.isNone_eq_false_iff]
    exact present

/-- No link is inserted for the document. -/
def noNewLink (documentId : Uuid) (σ : PublicSharing) (a : LinkStep) : Prop :=
  ∀ s ∈ σ.inserts a, s.documentId ≠ documentId

/-- Whatever is active has expired. -/
def AllExpired (documentId : Uuid) (σ : PublicSharing) : Prop :=
  ∀ s ∈ σ.activeLinks documentId, s.expired σ.now = true

theorem expired_later {s : PublicLink} {now later : Time} (h : s.expired now = true)
    (le : now ≤ later) : s.expired later = true := by
  rw [PublicLink.expired, Option.any_eq_true] at h ⊢
  obtain ⟨e, he, past⟩ := h
  refine ⟨e, he, ?_⟩
  rw [decide_eq_true_eq] at past ⊢
  exact past.trans le

theorem AllExpired.step {documentId : Uuid} {σ σ' : PublicSharing} (hσ : AllExpired documentId σ)
    {a : LinkStep} (none_new : noNewLink documentId σ a) (h : σ.step a = some σ') :
    AllExpired documentId σ' := by
  intro x hx
  obtain ⟨mem, document, active⟩ := mem_activeLinks.mp hx
  have old : x ∈ σ.links.rows → x.expired σ.now = true := fun mem =>
    hσ x (mem_activeLinks.mpr ⟨mem, document, active⟩)
  obtain ⟨kept, -, -⟩ | ⟨s, inserted, -, added⟩ | ⟨target, -, -, revoked⟩ | ⟨db, -, rfl⟩ :=
    link_step_cases h
  · rw [kept.links] at mem
    exact expired_later (old mem) kept.later
  · rw [added.now]
    obtain rfl | mem := (added.links x).mp mem
    · exact absurd document (none_new x inserted)
    · exact old mem
  · rw [revoked.now]
    exact old ((revoked.active x active).mp mem).1
  · exact old (Table.mem_deleteWhere.mp mem).1

/-- The link has not expired, and its token resolves until it does, unless the link is revoked or
its document is deleted. -/
def KeepsResolving (σ : PublicSharing) (s : PublicLink) : Prop :=
  s.expired σ.now = false ∧
  ∀ later, Runs.Reaches step (undisturbed s) σ later → ∀ d,
    later.liveDocument s.documentId = some d → s.expired later.now = false →
      later.getActivePublicShare s.shareToken = .ok (s, d)

/-- No token of the document resolves until a link is created for it. -/
def NothingResolves (σ : PublicSharing) (documentId : Uuid) : Prop :=
  ∀ later, Runs.Reaches step (noNewLink documentId) σ later → ∀ token s d,
    later.getActivePublicShare token = .ok (s, d) → s.documentId ≠ documentId

/-- What a creation returns is active and has not expired, if the old link it returns has not. -/
theorem returned_active {σ σ' : PublicSharing} {a : LinkStep} {s : PublicLink}
    (sound : soundStep σ a) (h : σ.step a = some σ') (returned : σ.returns a = some s) :
    s ∈ σ'.links.rows ∧ s.status = .active ∧ s.expired σ'.now = false := by
  have valid := sound.1 s returned
  cases a with
  | beginCreate call documentId ownerId expiresInDays =>
    have read : σ.readForCreate documentId ownerId = some (some s) :=
      Option.join_eq_some_iff.mp returned
    simp only [step, read, Option.some.injEq] at h
    subst h
    obtain ⟨_, -, one⟩ := Option.bind_eq_some_iff.mp read
    have found : s ∈ σ.activeLinks documentId := by
      rw [eq_toList_of_scalarOneOrNone one]
      exact List.mem_singleton_self s
    obtain ⟨mem, -, active⟩ := mem_activeLinks.mp found
    exact ⟨mem, active, valid⟩
  | finishCreate call token shareId =>
    obtain ⟨-, missing, -⟩ | ⟨x, inserted, -, added⟩ | ⟨target, hit, -, -⟩ | ⟨db, same, -⟩ :=
      link_step_cases h
    · cases missing.symm.trans returned
    · cases inserted.symm.trans returned
      rw [added.now]
      exact ⟨(added.links s).mpr (.inl rfl), added.active, valid⟩
    · cases hit
    · cases same
  | _ => cases returned

theorem KeepsResolving.of_returned {σ σ' : PublicSharing} {a : LinkStep} {s : PublicLink}
    (hσ : TokensSound σ) (sound : soundStep σ a) (h : σ.step a = some σ')
    (returned : σ.returns a = some s) : KeepsResolving σ' s := by
  obtain ⟨mem, active, valid⟩ := returned_active sound h returned
  refine ⟨valid, fun later run d document unexpired => ?_⟩
  have tokens : TokensSound later :=
    run.invariant (fun _ _ _ inv _ h => inv.step h) (hσ.step h)
  have kept : s ∈ later.links.rows :=
    run.invariant (fun _ _ _ mem calm h => undisturbed_active calm h active mem) mem
  exact tokens.resolves kept active document unexpired

theorem NothingResolves.of_revoked {σ σ' : PublicSharing} {a : LinkStep} {target : Uuid × Uuid}
    (sound : soundStep σ a) (h : σ.step a = some σ') (hit : σ.revokes a = some target) :
    NothingResolves σ' target.1 := by
  have after : AllExpired target.1 σ' := by
    intro x hx
    obtain ⟨mem, document, active⟩ := mem_activeLinks.mp hx
    obtain ⟨-, -, missing⟩ | ⟨s, -, missing, -⟩ | ⟨target', hit', -, revoked⟩ | ⟨db, rfl, -⟩ :=
      link_step_cases h
    · cases missing.symm.trans hit
    · cases missing.symm.trans hit
    · cases hit'.symm.trans hit
      obtain ⟨mem, other⟩ := (revoked.active x active).mp mem
      have expired := sound.2.2 target hit x (mem_activeLinks.mpr ⟨mem, document, active⟩)
      rw [revoked.now]
      exact expired.resolve_left other
    · cases hit
  intro later run token s d resolved document
  have expired : AllExpired target.1 later :=
    run.invariant (fun _ _ _ inv none_new h => inv.step none_new h) after
  obtain ⟨mem, valid⟩ := active_of_resolves resolved
  have past := expired s (document ▸ mem)
  rw [valid] at past
  cases past

/-- Along runs of sound steps no lookup of a document's link raises, a returned token resolves
until it expires or is revoked, and nothing resolves from a revocation to the next creation. -/
theorem public_links_until_revoked {db : Db} {now : Time} {σ : PublicSharing}
    (run : Runs.Reaches step soundStep (start db now) σ) :
    (∀ documentId, (σ.activeLinks documentId).length ≤ 1 ∧
      (scalarOneOrNone (σ.activeLinks documentId)).isSome = true) ∧
    ∀ a σ', soundStep σ a → σ.step a = some σ' →
      (∀ s, σ.returns a = some s → KeepsResolving σ' s) ∧
      ∀ target, σ.revokes a = some target → NothingResolves σ' target.1 := by
  have one : OneActiveLink σ := by
    apply run.invariant (fun _ _ _ inv sound h => inv.step sound h)
    intro s hs
    cases hs
  have tokens : TokensSound σ :=
    run.invariant (fun _ _ _ inv _ h => inv.step h) (start_tokensSound db now)
  constructor
  · intro documentId
    have length := one.length_le documentId
    exact ⟨length, scalarOneOrNone_isSome length⟩
  · intro a σ' sound h
    exact ⟨fun s returned => .of_returned tokens sound h returned,
      fun target hit => .of_revoked sound h hit⟩

/-- Ana creates a link of her note, and later revokes it. -/
def anasLink : List LinkStep :=
  [.beginCreate 1 (uuid "note") "ana" (some 1), .finishCreate 1 "t1" (uuid "link1"),
   .beginRevoke 2 (uuid "note") "ana"]

theorem public_links_until_revoked_at_end : ∃ σ,
    Runs.Reaches step soundStep (start sharingDb 0) σ ∧
    (σ.activeLinks (uuid "note")).length ≤ 1 ∧
    ∃ revoked, σ.step (.finishRevoke 2) = some revoked ∧ NothingResolves revoked (uuid "note") := by
  obtain ⟨σ, run, isSome, sound, hit⟩ := Runs.exists_reaches_of_runAll step soundStep
    (start sharingDb 0) anasLink
    (fun σ => (σ.step (.finishRevoke 2)).isSome = true ∧ soundStep σ (.finishRevoke 2) ∧
      σ.revokes (.finishRevoke 2) = some (uuid "note", uuid "link1"))
    (by decide)
  obtain ⟨revoked, h⟩ := Option.isSome_iff_exists.mp isSome
  obtain ⟨length, -⟩ := (public_links_until_revoked run).1 (uuid "note")
  have steps := (public_links_until_revoked run).2 _ revoked sound h
  exact ⟨σ, run, length, revoked, h, steps.2 _ hit⟩

/-- The token is answered with a document. -/
def PublicSharing.opens (σ : PublicSharing) (token : String) : Bool :=
  match σ.getActivePublicShare token with
  | .ok _ => true
  | .error _ => false

/-- Two creations that overtake each other leave two active links, and the lookup of either call
raises. A creation returns a link that has expired. A revocation that is overtaken by another, and
by a creation after it, leaves the new link. -/
theorem public_link_twice :
    (∃ σ, Runs.Reaches step Runs.always (start sharingDb 0) σ ∧
      (σ.activeLinks (uuid "note")).length = 2 ∧ σ.readForCreate (uuid "note") "ana" = none ∧
      σ.readForRevoke (uuid "note") "ana" = none) ∧
    (∃ σ, Runs.Reaches step Runs.always (start sharingDb 0) σ ∧
      (σ.returns (.beginCreate 2 (uuid "note") "ana" none)).any (·.shareToken = "t1") = true ∧
      (σ.step (.beginCreate 2 (uuid "note") "ana" none)).any (fun σ' => !σ'.opens "t1") = true) ∧
    ∃ σ, Runs.Reaches step Runs.always (start sharingDb 0) σ ∧
      (σ.revokes (.finishRevoke 2)).any (·.1 = uuid "note") = true ∧
      (σ.step (.finishRevoke 2)).any (·.opens "t2") = true := by
  refine ⟨?_, ?_, ?_⟩
  · exact Runs.exists_reaches_of_runAll step Runs.always (start sharingDb 0)
      [.beginCreate 1 (uuid "note") "ana" none, .beginCreate 2 (uuid "note") "ana" none,
       .finishCreate 1 "t1" (uuid "link1"), .finishCreate 2 "t2" (uuid "link2")] _ (by decide)
  · exact Runs.exists_reaches_of_runAll step Runs.always (start sharingDb 0)
      [.beginCreate 1 (uuid "note") "ana" (some 1), .finishCreate 1 "t1" (uuid "link1"),
       .advance 86400] _ (by decide)
  · exact Runs.exists_reaches_of_runAll step Runs.always (start sharingDb 0)
      [.beginCreate 1 (uuid "note") "ana" none, .finishCreate 1 "t1" (uuid "link1"),
       .beginRevoke 2 (uuid "note") "ana", .beginRevoke 3 (uuid "note") "ana", .finishRevoke 3,
       .beginCreate 4 (uuid "note") "ana" none, .finishCreate 4 "t2" (uuid "link2")] _ (by decide)

end GigaPdf
