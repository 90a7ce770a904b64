import GigaPdf.Lib.Runs
import GigaPdf.Storage.QuotaRuns

/-!
# The members of a tenant

The requests of administrators that add, change and remove the members of an organization. Each
reads and checks without a lock, and writes and commits later.
-/

namespace GigaPdf

open Runs

/-! ## The requests -/

structure MemberRow extends TenantMember where
  id : Uuid
  customPermissions : Option String
deriving DecidableEq

/-- Only what is not `None` is changed. -/
structure MemberUpdate where
  role : Option TenantRole
  isActive : Option Bool
  customPermissions : Option (List String)

structure HttpError where
  statusCode : Nat
  detail : String
deriving DecidableEq

/-- What a request has the session write. An update writes the columns whose value it has changed. -/
inductive MemberWrite
  | insert (tenantId : Uuid) (userId : String) (role : TenantRole)
  | update (memberId : Uuid) (role : Option TenantRole) (isActive : Option Bool)
    (customPermissions : Option (Option String))
  | delete (memberId : Uuid)
deriving DecidableEq

/-- `users` are the ids of the quota rows. -/
structure TenantsDb where
  tenants : Tenants
  users : List String
  members : Table MemberRow.id

def MemberRow.isActiveOwner (m : MemberRow) : Bool := m.isActive && m.role = .owner

def MemberRow.changed (role : Option TenantRole) (isActive : Option Bool)
    (customPermissions : Option (Option String)) (m : MemberRow) : MemberRow :=
  { m with
    role := role.getD m.role
    isActive := isActive.getD m.isActive
    customPermissions := customPermissions.getD m.customPermissions }

/-- The value, if it is given and differs from the one that was read. -/
def changedValue {β : Type} [DecidableEq β] (given : Option β) (read : β) : Option β :=
  given.filter fun value => value ≠ read

/-- No permission is written as `NULL`. -/
def joinPermissions (permissions : List String) : Option String :=
  if permissions = [] then none else some (",".intercalate permissions)

namespace TenantsDb

variable (db : TenantsDb)

def membersOf (tenantId : Uuid) : List MemberRow :=
  db.members.rows.filter fun m => m.tenantId = tenantId

def addMember (tenantId : Uuid) (userId : String) (role : TenantRole) :
    Except HttpError MemberWrite :=
  match db.tenants.find? tenantId with
  | none => .error ⟨404, "Tenant not found"⟩
  | some tenant =>
    if tenant.maxMembers ≤ (db.membersOf tenantId).length then
      .error ⟨400, "Member limit reached"⟩
    else if userId ∉ db.users then .error ⟨404, "User not found"⟩
    else if (db.membersOf tenantId).any fun m => m.userId = userId then
      .error ⟨400, "User is already a member"⟩
    else .ok (.insert tenantId userId role)

def updateMember (tenantId memberId : Uuid) (data : MemberUpdate) :
    Except HttpError MemberWrite :=
  match (db.membersOf tenantId).find? fun m => m.id = memberId with
  | none => .error ⟨404, "Member not found"⟩
  | some member =>
    .ok (.update memberId (changedValue data.role member.role)
      (changedValue data.isActive member.isActive)
      (changedValue (data.customPermissions.map joinPermissions) member.customPermissions))

/-- The owners are counted whether they are active or not. -/
def removeMember (tenantId memberId : Uuid) : Except HttpError MemberWrite :=
  match (db.membersOf tenantId).find? fun m => m.id = memberId with
  | none => .error ⟨404, "Member not found"⟩
  | some member =>
    if member.role = .owner ∧
        ((db.membersOf tenantId).filter fun m => m.role = .owner).length ≤ 1 then
      .error ⟨400, "Cannot remove the last owner"⟩
    else .ok (.delete memberId)

/-- The flush and the commit; `id` is the id of a new row. A user is a member of a tenant once, and
an update of a row that is gone fails. -/
def write (id : Uuid) : MemberWrite → Option TenantsDb
  | .insert tenantId userId role =>
    if (db.membersOf tenantId).any fun m => m.userId = userId then none
    else
      (db.members.insert? ⟨⟨tenantId, userId, role, true⟩, id, none⟩).map fun members =>
        { db with members }
  | .update memberId role isActive customPermissions =>
    (db.members.find? memberId).map fun _ =>
      { db with
        members := db.members.update memberId (MemberRow.changed role isActive customPermissions)
          fun _ => rfl }
  | .delete memberId =>
    some { db with members := db.members.deleteWhere fun m => m.id = memberId }

end TenantsDb

/-! ## Requests in any interleaving -/

/-- The committed rows, and what each request is to write. -/
structure MemberRun where
  db : TenantsDb
  writes : List (Option MemberWrite)

inductive MemberStep
  | addMember (tenantId : Uuid) (userId : String) (role : TenantRole)
  | updateMember (tenantId memberId : Uuid) (data : MemberUpdate)
  | removeMember (tenantId memberId : Uuid)
  | commit (call : Nat) (id : Uuid)

namespace MemberRun

def start (db : TenantsDb) : MemberRun := ⟨db, []⟩

def read (r : MemberRun) (answer : Except HttpError MemberWrite) : MemberRun :=
  { r with writes := r.writes ++ [answer.toOption] }

def step (r : MemberRun) : MemberStep → Option MemberRun
  | .addMember tenantId userId role => some (r.read (r.db.addMember tenantId userId role))
  | .updateMember tenantId memberId data => some (r.read (r.db.updateMember tenantId memberId data))
  | .removeMember tenantId memberId => some (r.read (r.db.removeMember tenantId memberId))
  | .commit call id =>
    match r.writes[call]? with
    | some (some w) => (r.db.write id w).map fun db => ⟨db, r.writes.set call none⟩
    | some none | none => none

end MemberRun

/-- The tenant has an active owner, and no more members than it may have. -/
structure TenantsDb.Kept (db : TenantsDb) (tenant : Tenant) : Prop where
  owned : ∃ m ∈ db.membersOf tenant.id, m.isActiveOwner = true
  within : (db.membersOf tenant.id).length ≤ tenant.maxMembers

/-- Another member of the tenant is an active owner. -/
def TenantsDb.OtherOwner (db : TenantsDb) (tenant : Tenant) (memberId : Uuid) : Prop :=
  ∃ m ∈ db.membersOf tenant.id, m.id ≠ memberId ∧ m.isActiveOwner = true

instance (db : TenantsDb) (tenant : Tenant) (memberId : Uuid) :
    Decidable (db.OtherOwner tenant memberId) :=
  inferInstanceAs (Decidable (∃ m ∈ db.membersOf tenant.id, _))

/-- A write that has room for the member it adds, and leaves an active owner. -/
def TenantsDb.SoundWrite (db : TenantsDb) (tenant : Tenant) : MemberWrite → Prop
  | .insert tenantId _ _ =>
    tenantId = tenant.id → (db.membersOf tenant.id).length < tenant.maxMembers
  | .update memberId role isActive _ =>
    ∀ m ∈ db.membersOf tenant.id, m.id = memberId → m.isActiveOwner = true →
      (role.getD .owner = .owner ∧ isActive.getD true = true) ∨ db.OtherOwner tenant memberId
  | .delete memberId =>
    ∀ m ∈ db.membersOf tenant.id, m.id = memberId → m.isActiveOwner = true →
      db.OtherOwner tenant memberId

instance (db : TenantsDb) (tenant : Tenant) : ∀ w, Decidable (db.SoundWrite tenant w)
  | .insert tenantId _ _ => inferInstanceAs (Decidable (tenantId = tenant.id → _))
  | .update .. => inferInstanceAs (Decidable (∀ m ∈ db.membersOf tenant.id, _ → _ → _))
  | .delete _ => inferInstanceAs (Decidable (∀ m ∈ db.membersOf tenant.id, _ → _ → _))

def SoundMemberStep (tenant : Tenant) (r : MemberRun) : MemberStep → Prop
  | .commit call _ => ∀ w ∈ r.writes[call]?.join, r.db.SoundWrite tenant w
  | .addMember .. | .updateMember .. | .removeMember .. => True

instance (tenant : Tenant) (r : MemberRun) : ∀ s, Decidable (SoundMemberStep tenant r s)
  | .commit call _ =>
    inferInstanceAs (Decidable (∀ w ∈ r.writes[call]?.join, r.db.SoundWrite tenant w))
  | .addMember .. | .updateMember .. | .removeMember .. => .isTrue trivial

/-! ## What a write keeps -/

namespace TenantsDb

variable {db db' : TenantsDb} {tenant : Tenant} {id tenantId memberId : Uuid} {userId : String}
  {role : TenantRole} {w : MemberWrite}

theorem mem_membersOf {m : MemberRow} :
    m ∈ db.membersOf tenantId ↔ m ∈ db.members.rows ∧ m.tenantId = tenantId := by
  rw [membersOf, List.mem_filter, decide_eq_true_eq]

/-- The id tells the member. -/
theorem eq_of_id_eq {m m' : MemberRow} (h : m ∈ db.membersOf tenantId)
    (h' : m' ∈ db.membersOf tenantId) (same : m.id = m'.id) : m = m' :=
  db.members.eq_of_key_eq (mem_membersOf.mp h).1 (mem_membersOf.mp h').1 same

theorem membersOf_insert (h : db.write id (.insert tenantId userId role) = some db')
    (t : Uuid) :
    db'.membersOf t =
      if tenantId = t then ⟨⟨tenantId, userId, role, true⟩, id, none⟩ :: db.membersOf t
      else db.membersOf t := by
  obtain ⟨-, h⟩ := Option.ite_none_left_eq_some.mp h
  obtain ⟨members, inserted, rfl⟩ := Option.map_eq_some_iff.mp h
  rw [membersOf, (Table.insert?_eq_some.mp inserted).2, List.filter_cons]
  by_cases here : tenantId = t <;> simp [here, membersOf]

theorem membersOf_update {role : Option TenantRole} {isActive : Option Bool}
    {customPermissions : Option (Option String)}
    (h : db.write id (.update memberId role isActive customPermissions) = some db') (t : Uuid) :
    db'.membersOf t = (db.membersOf t).map fun m =>
      if m.id = memberId then m.changed role isActive customPermissions else m := by
  obtain ⟨-, -, rfl⟩ := Option.map_eq_some_iff.mp h
  have rows : ∀ p : MemberRow → Bool,
      (db.members.update memberId (MemberRow.changed role isActive customPermissions)
        fun _ => rfl).rows.filter p =
        (db.members.rows.map fun m => if decide (m.id = memberId) then
          m.changed role isActive customPermissions else m).filter p := fun _ => rfl
  rw [membersOf, rows, List.filter_map, membersOf]
  have same : ∀ m : MemberRow,
      (if m.id = memberId then m.changed role isActive customPermissions else m).tenantId =
        m.tenantId := by
    intro m
    split <;> rfl
  simp only [Function.comp_def, decide_eq_true_eq, same]

theorem membersOf_delete (h : db.write id (.delete memberId) = some db') (t : Uuid) :
    db'.membersOf t = (db.membersOf t).filter fun m => !decide (m.id = memberId) := by
  cases h
  rw [membersOf, Table.rows_deleteWhere, membersOf, List.filter_filter, List.filter_filter]
  simp only [Bool.and_comm]

theorem changed_isActiveOwner {m : MemberRow} (owner : m.isActiveOwner = true)
    (role : Option TenantRole) (isActive : Option Bool)
    (customPermissions : Option (Option String)) :
    (m.changed role isActive customPermissions).isActiveOwner = true ↔
      role.getD .owner = .owner ∧ isActive.getD true = true := by
  simp only [MemberRow.isActiveOwner, Bool.and_eq_true, decide_eq_true_eq] at owner
  simp only [MemberRow.isActiveOwner, MemberRow.changed, owner.1, owner.2, Bool.and_eq_true,
    decide_eq_true_eq]
  exact and_comm

theorem Kept.insert_iff (kept : db.Kept tenant)
    (h : db.write id (.insert tenantId userId role) = some db') :
    db'.Kept tenant ↔ db.SoundWrite tenant (.insert tenantId userId role) := by
  have members := membersOf_insert h tenant.id
  have owned : ∃ m ∈ db'.membersOf tenant.id, m.isActiveOwner = true := by
    obtain ⟨m, mem, owner⟩ := kept.owned
    refine ⟨m, ?_, owner⟩
    rw [members]
    split
    · exact List.mem_cons_of_mem _ mem
    · exact mem
  have room : (db'.membersOf tenant.id).length ≤ tenant.maxMembers ↔
      db.SoundWrite tenant (.insert tenantId userId role) := by
    rw [members, SoundWrite]
    have within := kept.within
    by_cases here : tenantId = tenant.id
    · simp only [here, if_true, List.length_cons, forall_const]
      omega
    · simp [here, within]
  exact ⟨fun kept' => room.mp kept'.within, fun sound => ⟨owned, room.mpr sound⟩⟩

theorem Kept.update_iff {role : Option TenantRole} {isActive : Option Bool}
    {customPermissions : Option (Option String)} (kept : db.Kept tenant)
    (h : db.write id (.update memberId role isActive customPermissions) = some db') :
    db'.Kept tenant ↔
      db.SoundWrite tenant (.update memberId role isActive customPermissions) := by
  have members := membersOf_update h tenant.id
  have within : (db'.membersOf tenant.id).length ≤ tenant.maxMembers := by
    rw [members, List.length_map]
    exact kept.within
  constructor
  · intro kept' m mem here owner
    obtain ⟨m', mem', owner'⟩ := kept'.owned
    rw [members] at mem'
    obtain ⟨x, hx, rfl⟩ := List.mem_map.mp mem'
    by_cases changed : x.id = memberId
    · rw [if_pos changed, eq_of_id_eq hx mem (changed.trans here.symm),
        changed_isActiveOwner owner] at owner'
      exact .inl owner'
    · rw [if_neg changed] at owner'
      exact .inr ⟨x, hx, changed, owner'⟩
  · intro sound
    refine ⟨?_, within⟩
    have other_kept : db.OtherOwner tenant memberId →
        ∃ m ∈ db'.membersOf tenant.id, m.isActiveOwner = true := by
      rintro ⟨m, mem, other, owner⟩
      refine ⟨m, ?_, owner⟩
      rw [members]
      exact List.mem_map.mpr ⟨m, mem, if_neg other⟩
    obtain ⟨m, mem, owner⟩ := kept.owned
    by_cases here : m.id = memberId
    · obtain same | other := sound m mem here owner
      · refine ⟨m.changed role isActive customPermissions, ?_,
          (changed_isActiveOwner owner _ _ _).mpr same⟩
        rw [members]
        exact List.mem_map.mpr ⟨m, mem, if_pos here⟩
      · exact other_kept other
    · exact other_kept ⟨m, mem, here, owner⟩

theorem Kept.delete_iff (kept : db.Kept tenant) (h : db.write id (.delete memberId) = some db') :
    db'.Kept tenant ↔ db.SoundWrite tenant (.delete memberId) := by
  have members := membersOf_delete h tenant.id
  have within : (db'.membersOf tenant.id).length ≤ tenant.maxMembers := by
    have fewer := List.length_filter_le (fun m : MemberRow => !decide (m.id = memberId))
      (db.membersOf tenant.id)
    have most := kept.within
    rw [members]
    omega
  have left : ∀ m, m ∈ db'.membersOf tenant.id ↔
      m ∈ db.membersOf tenant.id ∧ m.id ≠ memberId := by
    intro m
    rw [members, List.mem_filter]
    simp
  constructor
  · intro kept' m mem here owner
    obtain ⟨m', mem', owner'⟩ := kept'.owned
    obtain ⟨mem', other⟩ := (left m').mp mem'
    exact ⟨m', mem', other, owner'⟩
  · intro sound
    refine ⟨?_, within⟩
    obtain ⟨m, mem, owner⟩ := kept.owned
    by_cases here : m.id = memberId
    · obtain ⟨m', mem', other, owner'⟩ := sound m mem here owner
      exact ⟨m', (left m').mpr ⟨mem', other⟩, owner'⟩
    · exact ⟨m, (left m).mpr ⟨mem, here⟩, owner⟩

/-- A write keeps the tenant in order just when it is sound. -/
theorem Kept.write_iff (kept : db.Kept tenant) (h : db.write id w = some db') :
    db'.Kept tenant ↔ db.SoundWrite tenant w := by
  cases w with
  | insert => exact kept.insert_iff h
  | update => exact kept.update_iff h
  | delete => exact kept.delete_iff h

/-! ### Writes that come right after the checks -/

/-- The limit holds for a request that nothing comes between. -/
theorem addMember_sound (found : db.tenants.find? tenant.id = some tenant)
    (h : db.addMember tenantId userId role = .ok w) : db.SoundWrite tenant w := by
  by_cases here : tenantId = tenant.id
  · subst here
    simp only [addMember, found] at h
    split at h
    · cases h
    · rename_i room
      split at h
      · cases h
      · split at h
        · cases h
        · cases h
          exact fun _ => not_le.mp room
  · rw [addMember] at h
    split at h
    · cases h
    · split_ifs at h
      cases h
      exact fun e => absurd e here

/-- Of two owners one is not the member to be removed. -/
theorem exists_other_owner (memberId : Uuid)
    (two : ¬((db.membersOf tenantId).filter fun m => m.role = .owner).length ≤ 1) :
    ∃ m ∈ db.membersOf tenantId, m.id ≠ memberId ∧ m.role = .owner := by
  have distinct : (((db.membersOf tenantId).filter fun m => m.role = .owner).map
      MemberRow.id).Nodup := by
    have sub := (List.filter_sublist (p := fun m : MemberRow => decide (m.role = .owner))).trans
      (List.filter_sublist (p := fun m : MemberRow => decide (m.tenantId = tenantId))
        (l := db.members.rows))
    exact List.Nodup.sublist (sub.map MemberRow.id) db.members.unique
  match owners : (db.membersOf tenantId).filter fun m => m.role = .owner with
  | [] => simp [owners] at two
  | [_] => simp [owners] at two
  | a :: b :: rest =>
    have owner : ∀ m ∈ a :: b :: rest, m ∈ db.membersOf tenantId ∧ m.role = .owner := by
      intro m mem
      rw [← owners] at mem
      exact ⟨(List.mem_filter.mp mem).1, by simpa using (List.mem_filter.mp mem).2⟩
    rw [owners] at distinct
    by_cases here : a.id = memberId
    · have other : b.id ≠ memberId := by
        intro e
        apply (List.nodup_cons.mp distinct).1
        rw [here, ← e]
        exact List.mem_cons_self ..
      obtain ⟨mem, role⟩ := owner b (by simp)
      exact ⟨b, mem, other, role⟩
    · obtain ⟨mem, role⟩ := owner a (by simp)
      exact ⟨a, mem, here, role⟩

/-- The check of the last owner suffices where every owner is active. -/
theorem removeMember_sound
    (active : ∀ m ∈ db.membersOf tenant.id, m.role = .owner → m.isActive = true)
    (h : db.removeMember tenant.id memberId = .ok w) : db.SoundWrite tenant w := by
  rw [removeMember] at h
  split at h
  · cases h
  · rename_i member found
    split at h
    · cases h
    · rename_i checked
      cases h
      intro m mem here owner
      have read : member ∈ db.membersOf tenant.id := List.mem_of_find?_eq_some found
      have named : member.id = memberId := by simpa using List.find?_some found
      have same : m = member := eq_of_id_eq mem read (here.trans named.symm)
      have role : member.role = .owner := by
        rw [← same]
        simp only [MemberRow.isActiveOwner, Bool.and_eq_true, decide_eq_true_eq] at owner
        exact owner.2
      obtain ⟨other, mem', different, owner'⟩ :=
        exists_other_owner memberId fun few => checked ⟨role, few⟩
      refine ⟨other, mem', different, ?_⟩
      simp [MemberRow.isActiveOwner, active other mem' owner', owner']

end TenantsDb

/-! ## Runs -/

theorem MemberRun.step_iff {tenant : Tenant} {r r' : MemberRun} {s : MemberStep}
    (kept : r.db.Kept tenant) (h : r.step s = some r') :
    r'.db.Kept tenant ↔ SoundMemberStep tenant r s := by
  cases s with
  | addMember | updateMember | removeMember =>
    cases h
    exact iff_of_true kept trivial
  | commit call id =>
    simp only [MemberRun.step] at h
    split at h
    · rename_i w planned
      obtain ⟨db, written, rfl⟩ := Option.map_eq_some_iff.mp h
      rw [SoundMemberStep, planned]
      simpa using kept.write_iff written
    · cases h
    · cases h

instance (db : TenantsDb) (tenant : Tenant) : Decidable (db.Kept tenant) :=
  decidable_of_iff ((∃ m ∈ db.membersOf tenant.id, m.isActiveOwner = true) ∧
      (db.membersOf tenant.id).length ≤ tenant.maxMembers)
    ⟨fun ⟨owned, within⟩ => ⟨owned, within⟩, fun kept => ⟨kept.owned, kept.within⟩⟩

/-- An organization of two members at most, whose owner is its only member. -/
def duo : Tenant := { acme with maxMembers := 2 }

def duoDb : TenantsDb where
  tenants := ⟨[duo], by decide⟩
  users := ["ana", "bob", "cleo"]
  members := ⟨[⟨anaAtAcme, uuid "m1", none⟩], by decide⟩

end GigaPdf
