/-
Who holds which key of which vault: what each transaction does to users, vaults and vault
keys, exactly.

`Transaction.access` says it of every transaction, and the invariants about access use nothing
else of the services. What is stored under a wrapped key, and whether a check was made on the
database as it is now, is for those invariants to say.
-/
import Mathlib.Data.List.Induction
import Bittery.Server.HistoryFacts
import Bittery.Server.Rotation.KeysFacts

namespace Bittery

open Lib

/-! ## What can happen -/

/-- Two rows of a vault that differ in its name and image at most. -/
structure Vault.Alike (v v' : Vault) : Prop where
  id : v'.id = v.id
  type : v'.type = v.type
  createdById : v'.createdById = v.createdById
  teamId : v'.teamId = v.teamId
  keyVersion : v'.keyVersion = v.keyVersion

/-- Users, keys and vaults are what they were. -/
structure SameAccess (db db' : Db) : Prop where
  users : db'.users = db.users
  keys : db'.vaultKeys = db.vaultKeys
  vaults : ∀ v' ∈ db'.vaults, ∃ v ∈ db.vaults, v.Alike v'

/-- A vault is there that was not, with its first key. -/
structure CreatesVault (v : Vault) (k : VaultKey) (db db' : Db) : Prop where
  users : db'.users = db.users
  vault : db.vaults.insert v = some db'.vaults
  key : db.vaultKeys.insert k = some db'.vaultKeys

/-- Keys are added, of those that are given. -/
structure AddsKeys (given : VaultKey → Prop) (t t' : Table VaultKey.id) : Prop where
  kept : ∀ k ∈ t, k ∈ t'
  only : ∀ k ∈ t', k ∈ t ∨ given k

/-- Keys are rewritten in place. -/
structure RewritesKeys (f : VaultKey → VaultKey) (db db' : Db) : Prop where
  users : db'.users = db.users
  vaults : db'.vaults = db.vaults
  keys : Table.Maps f db.vaultKeys db'.vaultKeys

/-- Users, vaults and keys are deleted. -/
structure DeletesAccess (user : User → Prop) (vault : Vault → Prop) (key : VaultKey → Prop) (db db' : Db) :
    Prop where
  users : ∀ u, u ∈ db'.users ↔ u ∈ db.users ∧ ¬ user u
  vaults : ∀ v, v ∈ db'.vaults ↔ v ∈ db.vaults ∧ ¬ vault v
  keys : ∀ k, k ∈ db'.vaultKeys ↔ k ∈ db.vaultKeys ∧ ¬ key k

def Vault.converted (vaultId : String) (type : VaultType) (teamId : Option String) (v : Vault) : Vault :=
  if v.id = vaultId then { v with type := type, teamId := teamId } else v

def VaultKey.withRole (vaultId userId : String) (role : VaultRole) (k : VaultKey) : VaultKey :=
  if k.vaultId = vaultId ∧ k.userId = userId then { k with role := role } else k

/-- A key after its owner has submitted wrapped keys, each with its vault. -/
def VaultKey.submitted (userId : String) (keys : List (String × String)) (k : VaultKey) : VaultKey :=
  keys.foldl (fun k x => if k.vaultId = x.1 ∧ k.userId = userId then { k with encryptedVaultKey := x.2 } else k) k

def User.joined (userId teamId : String) (role : TeamRole) (u : User) : User :=
  if u.id = userId then { u with teamId := some teamId, role := role } else u

/-- The team that a user is in. -/
def Db.teamOf (db : Db) (userId : String) : Option String := (db.users.get? userId).bind (·.teamId)

/-- A pending key of an invitation, as it is stored for the user who accepts it. -/
def PendingVaultKey.row (k : PendingVaultKey) (userId : String) (role : VaultRole) : VaultKey :=
  { id := k.keyId, vaultId := k.vaultId, userId := userId, encryptedVaultKey := k.encryptedVaultKey, role := role }

/-- A personal vault has no team; a new team vault is of the team that its creator was in. -/
structure Vault.FoundedBy (v : Vault) (seen : Db) (userId : String) : Prop where
  createdById : v.createdById = userId
  keyVersion : v.keyVersion = 1
  personal : v.type = .personal → v.teamId = none
  team : v.type = .team → v.teamId.isSome = true ∧ v.teamId = seen.teamOf userId

/-- A conversion to a team vault, or back. -/
inductive Converts (seen : Db) (userId : String) (input : ConvertVaultTypeInput) (db db' : Db) : Prop
  | toTeam (htype : input.targetType = .team) (teamId : String) (hteam : seen.teamOf userId = some teamId)
      (husers : db'.users = db.users) (hkeys : db'.vaultKeys = db.vaultKeys)
      (hvaults : Table.Maps (Vault.converted input.vaultId .team (some teamId)) db.vaults db'.vaults)
  | toPersonal (htype : input.targetType = .personal) (k : VaultKey)
      (honly : ∀ k', k' ∈ db.vaultKeys ∧ k'.vaultId = input.vaultId ↔ k' = k) (howner : k.role = .owner)
      (husers : db'.users = db.users)
      (hkeys : Table.Maps (VaultKey.submitted userId (input.personalEncryptedVaultKey.toList.map fun key =>
        (input.vaultId, key))) db.vaultKeys db'.vaultKeys)
      (hvaults : Table.Maps (Vault.converted input.vaultId .personal none) db.vaults db'.vaults)

/-- What the transaction does to users, vaults and keys. -/
def Transaction.Access (h : History) (db' : Db) : Transaction → Prop
  | createVault userId generatedId keyId input seen => ∃ db v, h.ago seen = some db ∧
      v.id = input.vaultId.getD generatedId ∧ v.type = input.vaultType ∧ v.FoundedBy db userId ∧
      CreatesVault v ⟨keyId, v.id, userId, input.encryptedVaultKey, .owner⟩ h.now db'
  | convertVaultType userId input seen => ∃ db, h.ago seen = some db ∧ Converts db userId input h.now db'
  | deleteVault _ _ vaultId _ _ => DeletesAccess (fun _ => False) (·.id = vaultId) (·.vaultId = vaultId) h.now db'
  | updateVaultMemberRole _ input _ =>
    input.role ≠ .owner ∧ RewritesKeys (VaultKey.withRole input.vaultId input.userId input.role) h.now db'
  | addVaultMember _ keyId input _ => input.role ≠ .owner ∧ db'.users = h.now.users ∧ db'.vaults = h.now.vaults ∧
      h.now.vaultKeys.insert ⟨keyId, input.vaultId, input.userId, input.encryptedVaultKey, input.role⟩ =
        some db'.vaultKeys
  | acceptInvitation userId invitation _ =>
      Table.Maps (User.joined userId invitation.teamId invitation.role) h.now.users db'.users ∧
      db'.vaults = h.now.vaults ∧
      AddsKeys (fun k => h.now.holdsKey userId k.vaultId = false ∧
        ∃ a ∈ invitation.pendingVaultKeys, k = a.row userId invitation.role.vaultRole) h.now.vaultKeys db'.vaultKeys
  | registerUser user vaultId keyId encryptedVaultKey invitation _ => ∃ v keys, v.id = vaultId ∧ v.type = .personal ∧
      v.createdById = user.id ∧ v.keyVersion = 1 ∧ h.now.users.insert user = some db'.users ∧
      h.now.vaults.insert v = some db'.vaults ∧
      h.now.vaultKeys.insert ⟨keyId, vaultId, user.id, encryptedVaultKey, .owner⟩ = some keys ∧
      AddsKeys (fun k => ∃ i, invitation = some i ∧ ∃ a ∈ i.pendingVaultKeys, k = a.row user.id i.role.vaultRole)
        keys db'.vaultKeys
  | updateVaultKeys userId keys => RewritesKeys (VaultKey.submitted userId keys) h.now db'
  | deleteAccount userId => DeletesAccess (·.id = userId) (·.createdById = userId)
      (fun k => k.userId = userId ∨ ∃ v ∈ h.now.vaults, v.createdById = userId ∧ v.id = k.vaultId) h.now db'
  | accounts users _ _ => db'.users = users ∧ db'.vaultKeys = h.now.vaultKeys ∧ db'.vaults = h.now.vaults
  | finalizeRemoval _ _ actorId vaultId targetId planId _ snap => ∃ snapshot, h.ago snap = some snapshot ∧
      (SameAccess h.now db' ∨ ∃ plan es tx', snapshot.plans.get? planId = some plan ∧ plan.vaultId = vaultId ∧
        plan.excludedUserId = some targetId ∧ FinalizedInTurn actorId [plan] es ⟨snapshot, h.now⟩ tx' ∧
        tx'.current = db')
  | finalizeDeparture _ _ teamId actorId targetId _ plans personalTeamId snap =>
    ∃ snapshot, h.ago snap = some snapshot ∧
      (SameAccess h.now db' ∨ ∃ target ps es tx₁ tx', snapshot.users.get? targetId = some target ∧
        target.teamId = some teamId ∧
        PlansFor snapshot actorId targetId (affectedVaults snapshot teamId targetId) (plans.map (·.1)) ps ∧
        FinalizedInTurn actorId ps es ⟨snapshot, h.now⟩ tx₁ ∧
        moveToPersonalTeam tx₁ target personalTeamId = some tx' ∧ tx'.current = db')
  | _ => SameAccess h.now db'

variable {db db' db'' seen acl listed : Db} {userId vaultId : String} {mode : DeploymentMode}

/-! ## Small steps -/

theorem Vault.Alike.refl (v : Vault) : v.Alike v := ⟨rfl, rfl, rfl, rfl, rfl⟩

theorem SameAccess.of_eq (husers : db'.users = db.users) (hkeys : db'.vaultKeys = db.vaultKeys)
    (hvaults : db'.vaults = db.vaults) : SameAccess db db' :=
  ⟨husers, hkeys, fun v hv => ⟨v, hvaults ▸ hv, .refl v⟩⟩

theorem SameAccess.refl (db : Db) : SameAccess db db := .of_eq rfl rfl rfl

theorem SameAccess.trans (h : SameAccess db db') (h' : SameAccess db' db'') : SameAccess db db'' := by
  refine ⟨h'.users.trans h.users, h'.keys.trans h.keys, fun v'' hv'' => ?_⟩
  obtain ⟨v', hv', ha'⟩ := h'.vaults v'' hv''
  obtain ⟨v, hv, ha⟩ := h.vaults v' hv'
  exact ⟨v, hv, ha'.id.trans ha.id, ha'.type.trans ha.type, ha'.createdById.trans ha.createdById,
    ha'.teamId.trans ha.teamId, ha'.keyVersion.trans ha.keyVersion⟩

theorem insertSyncEvent_rows {eventType : SyncEventType} {entityId : String} {entityType : SyncEntityType}
    {version : Nat} {clientId : Option String} {metadata : Option EventMetadata}
    (h : db.insertSyncEvent eventType entityId entityType vaultId userId version clientId metadata = .ok db') :
    db'.users = db.users ∧ db'.vaultKeys = db.vaultKeys ∧ db'.vaults = db.vaults := by
  obtain ⟨-, rfl⟩ := insertSyncEvent_ok h
  exact ⟨rfl, rfl, rfl⟩

theorem SameAccess.insertSyncEvent {eventType : SyncEventType} {entityId : String} {entityType : SyncEntityType}
    {version : Nat} {clientId : Option String} {metadata : Option EventMetadata}
    (h : db.insertSyncEvent eventType entityId entityType vaultId userId version clientId metadata = .ok db') :
    SameAccess db db' := by
  obtain ⟨husers, hkeys, hvaults⟩ := insertSyncEvent_rows h
  exact .of_eq husers hkeys hvaults

theorem AddsKeys.refl (given : VaultKey → Prop) (t : Table VaultKey.id) : AddsKeys given t t :=
  ⟨fun _ hk => hk, fun _ hk => .inl hk⟩

/-- A loop that inserts the keys of a list, or skips them. -/
theorem addsKeys_foldlM {α : Type} {f : Db → α → Except AppError Db} {given : α → VaultKey → Prop}
    (hf : ∀ d a d', (∀ k ∈ db.vaultKeys, k ∈ d.vaultKeys) → f d a = .ok d' →
      d'.users = d.users ∧ d'.vaults = d.vaults ∧ AddsKeys (given a) d.vaultKeys d'.vaultKeys)
    {l : List α} (h : l.foldlM f db = .ok db') : db'.users = db.users ∧ db'.vaults = db.vaults ∧
      AddsKeys (fun k => ∃ a ∈ l, given a k) db.vaultKeys db'.vaultKeys := by
  refine @Except.foldlM_ok _ _ _ f (fun done d => d.users = db.users ∧ d.vaults = db.vaults ∧
    AddsKeys (fun k => ∃ a ∈ done, given a k) db.vaultKeys d.vaultKeys) ?_ l [] db db' ⟨rfl, rfl, .refl _ _⟩ h
  rintro done a d d' ⟨husers, hvaults, hkeys⟩ hstep
  obtain ⟨husers', hvaults', hkeys'⟩ := hf d a d' hkeys.kept hstep
  refine ⟨husers'.trans husers, hvaults'.trans hvaults, fun k hk => hkeys'.kept k (hkeys.kept k hk), fun k hk => ?_⟩
  rcases hkeys'.only k hk with hk | hk
  · exact (hkeys.only k hk).imp_right fun ⟨b, hb, hgiven⟩ => ⟨b, List.mem_append_left _ hb, hgiven⟩
  · exact .inr ⟨a, List.mem_append_right _ (List.mem_singleton.mpr rfl), hk⟩

theorem insertVaultKey_ok {key : VaultKey} {context : String} (h : insertVaultKey db key context = .ok db') :
    db'.users = db.users ∧ db'.vaults = db.vaults ∧ db'.events = db.events ∧ db'.nextSeq = db.nextSeq ∧
      db.vaultKeys.insert key = some db'.vaultKeys := by
  simp only [insertVaultKey, Except.guard_ok_iff] at h
  obtain ⟨-, h⟩ := h
  split at h
  · next hins =>
    cases h
    exact ⟨rfl, rfl, rfl, rfl, hins⟩
  · cases h

theorem AddsKeys.insert {t t' : Table VaultKey.id} {k : VaultKey} (h : t.insert k = some t') : AddsKeys (· = k) t t' :=
  ⟨fun k' hk' => (Table.mem_insert h k').mpr (.inl hk'), fun k' hk' => (Table.mem_insert h k').mp hk'⟩

theorem insertVault_ok {vault : Vault} {context : String} (h : insertVault db vault context = .ok db') :
    db'.users = db.users ∧ db'.vaultKeys = db.vaultKeys ∧ db.vaults.insert vault = some db'.vaults := by
  simp only [insertVault, Except.guard_ok_iff] at h
  obtain ⟨-, h⟩ := h
  split at h
  · next hins =>
    cases h
    exact ⟨rfl, rfl, hins⟩
  · cases h

theorem updateVaultRow_maps (f : Vault → Vault) (hf : ∀ v, (f v).id = v.id) :
    Table.Maps (fun v => if v.id = vaultId then f v else v) db.vaults (updateVaultRow db vaultId f).vaults := by
  intro v'
  show v' ∈ db.vaults.updateWhere (fun v => v.id = vaultId) (fun v => { f v with id := v.id }) (fun _ => rfl) ↔ _
  have hrow : ∀ v, { f v with id := v.id } = f v := fun v => by rw [← hf v]
  rw [Table.mem_updateWhere]
  simp only [decide_eq_true_eq, hrow]

theorem updateVaultKeyRow_maps (f : VaultKey → VaultKey) (hf : ∀ k, (f k).id = k.id) :
    Table.Maps (fun k => if k.vaultId = vaultId ∧ k.userId = userId then f k else k) db.vaultKeys
      (updateVaultKeyRow db vaultId userId f).vaultKeys := by
  intro k'
  show k' ∈ db.vaultKeys.updateWhere (fun k => k.vaultId = vaultId && k.userId = userId)
    (fun k => { f k with id := k.id }) (fun _ => rfl) ↔ _
  have hrow : ∀ k, { f k with id := k.id } = f k := fun k => by rw [← hf k]
  rw [Table.mem_updateWhere]
  simp only [Bool.and_eq_true, decide_eq_true_eq, hrow]

/-! ## Requests that touch no access -/

theorem ItemRequest.sameAccess {r : ItemRequest} (h : r.run seen acl db userId = .ok db') : SameAccess db db' := by
  cases hm : r.mutation userId with
  | some m =>
    obtain ⟨version, hrun⟩ := ItemRequest.run_mutation hm h
    obtain ⟨existing, row, -, -, rfl⟩ := ItemMutation.run_ok hrun
    have husers : (writeRow db row (m.write row)).users = db.users := by cases m.write row <;> rfl
    exact .of_eq husers (writeRow_vaultKeys (m.write row)) (writeRow_vaults (m.write row))
  | none =>
    cases r with
    | create input =>
      obtain ⟨-, -, items, -, rfl⟩ := createVaultItem_ok h
      exact .of_eq rfl rfl rfl
    | bulkImport input =>
      obtain ⟨-, rfl | ⟨-, -, items, -, rfl⟩⟩ := bulkImportVaultItems_ok h
      · exact .refl _
      · exact .of_eq rfl rfl rfl
    | _ => cases hm

theorem updateVault_sameAccess {input : UpdateVaultInput} (h : updateVault seen db userId input = .ok db') :
    SameAccess db db' := by
  simp only [updateVault, Except.guard_ok_iff, Except.bind_ok_iff, Prod.exists] at h
  obtain ⟨-, current, role, -, -, h⟩ := h
  obtain ⟨husers, hkeys, hvaults⟩ := insertSyncEvent_rows h
  refine ⟨husers, hkeys, fun v' hv' => ?_⟩
  rw [hvaults] at hv'
  obtain ⟨v, hv, he⟩ := (updateVaultRow_maps _ (by intro v; rfl) v').mp hv'
  refine ⟨v, hv, ?_⟩
  subst he
  dsimp only
  split <;> exact ⟨rfl, rfl, rfl, rfl, rfl⟩

theorem cleanupTombstones_sameAccess {cutoff : Time} (h : cleanupTombstones seen db cutoff = .ok db') :
    SameAccess db db' := by
  simp only [cleanupTombstones, Except.bind_ok_iff, Except.pure_ok_iff] at h
  obtain ⟨db₁, hloop, rfl⟩ := h
  have hloop : SameAccess db db₁ := @Except.foldlM_ok _ _ _ _ (fun _ d => SameAccess db d)
    (fun _ _ _ _ hd hstep => hd.trans (.insertSyncEvent hstep)) _ [] db db₁ (.refl db) hloop
  exact hloop.trans (.of_eq rfl rfl rfl)

theorem PlansEvolve.sameAccess (h : PlansEvolve (fun _ _ => True) (fun _ _ => True) db db') : SameAccess db db' := by
  obtain ⟨plans, rfl, -⟩ := h
  exact .of_eq rfl rfl rfl

/-! ## Vaults -/

theorem loadSharingTeam_ok {noTeam teamId : String} {limit : Option Nat}
    (h : loadSharingTeam db mode userId noTeam = .ok (teamId, limit)) : db.teamOf userId = some teamId := by
  unfold loadSharingTeam at h
  split at h
  · next id plan status hload =>
    have hteam : id = teamId := by
      simp only at h
      split at h
      · cases h; rfl
      · cases h
    simp only [loadTeamBillingEntitlement, Option.map_eq_some_iff, Prod.mk.injEq] at hload
    obtain ⟨u, hu, hid, -⟩ := hload
    rw [Db.teamOf, hu, ← hteam]
    exact hid
  · cases h

theorem createVault_access {generatedId keyId : String} {input : CreateVaultInput}
    (h : createVault mode seen db userId generatedId keyId input = .ok db') :
    ∃ v : Vault, v.id = input.vaultId.getD generatedId ∧ v.type = input.vaultType ∧ v.FoundedBy seen userId ∧
      CreatesVault v ⟨keyId, v.id, userId, input.encryptedVaultKey, .owner⟩ db db' := by
  simp only [createVault, Except.guard_ok_iff] at h
  obtain ⟨-, h⟩ := h
  split at h
  · next htype =>
    simp only [Except.bind_ok_iff, Except.pure_ok_iff] at h
    obtain ⟨team, rfl, ⟨⟩, -, db₁, hvault, db₂, hkey, hev⟩ := h
    obtain ⟨husers₁, hkeys₁, hins⟩ := insertVault_ok hvault
    obtain ⟨husers₂, hvaults₂, -, -, hinskey⟩ := insertVaultKey_ok hkey
    obtain ⟨husers, hkeys, hvaults⟩ := insertSyncEvent_rows hev
    rw [← hvaults₂, ← hvaults] at hins
    rw [hkeys₁, ← hkeys] at hinskey
    refine ⟨_, ?_, ?_, ?_, ⟨(husers.trans husers₂).trans husers₁, hins, hinskey⟩⟩
    · rfl
    · rfl
    · exact ⟨rfl, rfl, fun _ => rfl, fun hteam => absurd (htype.symm.trans hteam) nofun⟩
  · next htype =>
    simp only [Except.bind_ok_iff, Except.map_ok_iff, Functor.map] at h
    obtain ⟨team, ⟨⟨teamId, limit⟩, hteam, rfl⟩, ⟨⟩, -, db₁, hvault, db₂, hkey, hev⟩ := h
    obtain ⟨husers₁, hkeys₁, hins⟩ := insertVault_ok hvault
    obtain ⟨husers₂, hvaults₂, -, -, hinskey⟩ := insertVaultKey_ok hkey
    obtain ⟨husers, hkeys, hvaults⟩ := insertSyncEvent_rows hev
    rw [← hvaults₂, ← hvaults] at hins
    rw [hkeys₁, ← hkeys] at hinskey
    refine ⟨_, ?_, ?_, ?_, ⟨(husers.trans husers₂).trans husers₁, hins, hinskey⟩⟩
    · rfl
    · rfl
    · exact ⟨rfl, rfl, fun hpersonal => absurd (htype.symm.trans hpersonal) nofun, fun _ =>
        ⟨rfl, (loadSharingTeam_ok hteam).symm⟩⟩

/-- Nothing is submitted, nothing is rewritten. -/
theorem submitted_nil_maps (userId : String) (t : Table VaultKey.id) : Table.Maps (VaultKey.submitted userId []) t t :=
  Table.Maps.refl t

theorem submitted_concat (userId : String) (keys : List (String × String)) (x : String × String) (k : VaultKey) :
    VaultKey.submitted userId (keys ++ [x]) k =
      if (VaultKey.submitted userId keys k).vaultId = x.1 ∧ (VaultKey.submitted userId keys k).userId = userId then
        { VaultKey.submitted userId keys k with encryptedVaultKey := x.2 }
      else VaultKey.submitted userId keys k := by
  unfold VaultKey.submitted
  rw [List.foldl_append]
  rfl

/-- What is submitted changes nothing of a key but its text. -/
theorem submitted_ids (userId : String) (keys : List (String × String)) (k : VaultKey) :
    (VaultKey.submitted userId keys k).id = k.id ∧ (VaultKey.submitted userId keys k).vaultId = k.vaultId ∧
      (VaultKey.submitted userId keys k).userId = k.userId ∧ (VaultKey.submitted userId keys k).role = k.role := by
  induction keys using List.reverseRecOn with
  | nil => exact ⟨rfl, rfl, rfl, rfl⟩
  | append_singleton keys x ih =>
    rw [submitted_concat]
    split <;> exact ih

/-- The text of a key is one that was submitted for its vault, if there is any. -/
theorem submitted_text (userId : String) (keys : List (String × String)) (k : VaultKey) :
    (VaultKey.submitted userId keys k).encryptedVaultKey = k.encryptedVaultKey ∧
        (k.userId = userId → ∀ x ∈ keys, x.1 ≠ k.vaultId) ∨
      k.userId = userId ∧ ∃ x ∈ keys, x.1 = k.vaultId ∧ (VaultKey.submitted userId keys k).encryptedVaultKey = x.2 := by
  induction keys using List.reverseRecOn with
  | nil => exact .inl ⟨rfl, fun _ => nofun⟩
  | append_singleton keys x ih =>
    obtain ⟨-, hvault, huser, -⟩ := submitted_ids userId keys k
    rw [submitted_concat, hvault, huser]
    split
    · next hx => exact .inr ⟨hx.2, x, by simp, hx.1.symm, rfl⟩
    · next hx =>
      rcases ih with ⟨htext, hnone⟩ | ⟨hu, y, hy, hyv, htext⟩
      · refine .inl ⟨htext, fun hu y hy => ?_⟩
        rcases List.mem_append.mp hy with hy | hy
        · exact hnone hu y hy
        · rw [List.mem_singleton.mp hy]
          exact fun he => hx ⟨he.symm, hu⟩
      · exact .inr ⟨hu, y, List.mem_append_left _ hy, hyv, htext⟩

theorem convertVaultRows_access {current : Vault} {input : ConvertVaultTypeInput}
    (h : convertVaultRows mode seen db userId current input = .ok db') : Converts seen userId input db db' := by
  unfold convertVaultRows at h
  split at h
  · next htype =>
    simp only [Except.bind_ok_iff, Prod.exists, Except.pure_ok_iff] at h
    obtain ⟨teamId, limit, hteam, ⟨⟩, -, rfl⟩ := h
    exact .toTeam htype teamId (loadSharingTeam_ok hteam) rfl rfl (updateVaultRow_maps _ (by intro v; rfl))
  · next htype =>
    split at h
    · next k hk =>
      split at h; · cases h
      next howner =>
      have honly : ∀ k', k' ∈ db.vaultKeys ∧ k'.vaultId = input.vaultId ↔ k' = k := by
        intro k'
        have hone : k' ∈ [k] ↔ k' = k := List.mem_singleton
        rw [← hone, ← hk, Table.mem_select, decide_eq_true_eq]
      split at h
      · next hnone =>
        cases h
        refine .toPersonal htype k honly (not_not.mp howner) rfl ?_ (updateVaultRow_maps _ (by intro v; rfl))
        rw [hnone]
        exact submitted_nil_maps userId db.vaultKeys
      · next key hsome =>
        cases h
        refine .toPersonal htype k honly (not_not.mp howner) rfl ?_ (updateVaultRow_maps _ (by intro v; rfl))
        rw [hsome]
        exact updateVaultKeyRow_maps _ (by intro k; rfl)
    · cases h
  · cases h

theorem Converts.after {input : ConvertVaultTypeInput} (h : Converts seen userId input db db')
    (husers : db''.users = db'.users) (hkeys : db''.vaultKeys = db'.vaultKeys) (hvaults : db''.vaults = db'.vaults) :
    Converts seen userId input db db'' := by
  cases h with
  | toTeam htype teamId hteam hu hk hv => exact .toTeam htype teamId hteam (husers.trans hu) (hkeys.trans hk) (hvaults ▸ hv)
  | toPersonal htype k honly howner hu hk hv =>
    exact .toPersonal htype k honly howner (husers.trans hu) (hkeys ▸ hk) (hvaults ▸ hv)

theorem convertVaultType_access {input : ConvertVaultTypeInput} (h : convertVaultType mode seen db userId input = .ok db') :
    Converts seen userId input db db' := by
  simp only [convertVaultType, Except.guard_ok_iff, Except.bind_ok_iff, Prod.exists] at h
  obtain ⟨⟨⟩, -, current, role, -, -, db₁, hrows, h⟩ := h
  obtain ⟨husers, hkeys, hvaults⟩ := insertSyncEvent_rows h
  exact (convertVaultRows_access hrows).after husers hkeys hvaults

theorem deleteVaultRows_access (db : Db) (vaultId : String) :
    DeletesAccess (fun _ => False) (·.id = vaultId) (·.vaultId = vaultId) db (deleteVaultRows db vaultId) := by
  refine ⟨fun u => by simp [deleteVaultRows], fun v => ?_, fun k => ?_⟩
  · show v ∈ db.vaults.deleteWhere _ ↔ _
    rw [Table.mem_deleteWhere, decide_eq_false_iff_not]
  · show k ∈ db.vaultKeys.deleteWhere _ ↔ _
    rw [Table.mem_deleteWhere, decide_eq_false_iff_not]

theorem deleteVault_access {clientId : Option String}
    (h : deleteVault seen listed db userId clientId vaultId = .ok db') :
    DeletesAccess (fun _ => False) (·.id = vaultId) (·.vaultId = vaultId) db db' := by
  simp only [deleteVault, Except.guard_ok_iff, Except.bind_ok_iff, Prod.exists, Except.pure_ok_iff] at h
  obtain ⟨vault, role, -, -, db₁, hev, db₂, hloop, rfl⟩ := h
  have hloop : SameAccess db₁ db₂ ∧ db₂.vaults = db₁.vaults := @Except.foldlM_ok _ _ _ _
    (fun _ d => SameAccess db₁ d ∧ d.vaults = db₁.vaults)
    (fun _ _ _ _ hd hstep => ⟨hd.1.trans (.insertSyncEvent hstep), (insertSyncEvent_rows hstep).2.2.trans hd.2⟩)
    _ [] db₁ db₂ ⟨.refl _, rfl⟩ hloop
  obtain ⟨husers, hkeys, hvaults⟩ := insertSyncEvent_rows hev
  have hdel := deleteVaultRows_access db₂ vaultId
  refine ⟨fun u => ?_, fun v => ?_, fun k => ?_⟩
  · rw [hdel.users, hloop.1.users, husers]
  · rw [hdel.vaults, hloop.2, hvaults]
  · rw [hdel.keys, hloop.1.keys, hkeys]

/-! ## Members -/

theorem validateVaultMemberRole_ok {role role' : VaultRole} (h : validateVaultMemberRole role = .ok role') :
    role' = role ∧ role ≠ .owner := by
  cases role <;> cases h <;> exact ⟨rfl, nofun⟩

theorem updateVaultMemberRole_access {input : UpdateVaultMemberRoleInput}
    (h : updateVaultMemberRole mode seen db userId input = .ok db') :
    input.role ≠ .owner ∧ RewritesKeys (VaultKey.withRole input.vaultId input.userId input.role) db db' := by
  simp only [updateVaultMemberRole, Except.guard_ok_iff, Except.bind_ok_iff, Prod.exists] at h
  obtain ⟨role, hrole, actor, team, -, -, h⟩ := h
  split at h; · cases h
  simp only [Except.bind_ok_iff, Except.pure_ok_iff] at h
  obtain ⟨⟨⟩, -, rfl⟩ := h
  obtain ⟨rfl, hne⟩ := validateVaultMemberRole_ok hrole
  exact ⟨hne, rfl, rfl, updateVaultKeyRow_maps _ (by intro k; rfl)⟩

theorem addVaultMember_access {keyId : String} {input : AddVaultMemberInput}
    (h : addVaultMember mode seen db userId keyId input = .ok db') :
    input.role ≠ .owner ∧ db'.users = db.users ∧ db'.vaults = db.vaults ∧
      db.vaultKeys.insert ⟨keyId, input.vaultId, input.userId, input.encryptedVaultKey, input.role⟩ = some db'.vaultKeys := by
  simp only [addVaultMember, Except.bind_ok_iff, Prod.exists] at h
  obtain ⟨⟨⟩, -, role, hrole, actor, team, -, h⟩ := h
  split at h; · cases h
  simp only [Except.guard_ok_iff, Except.bind_ok_iff] at h
  obtain ⟨-, -, db₁, hkey, h⟩ := h
  obtain ⟨rfl, hne⟩ := validateVaultMemberRole_ok hrole
  obtain ⟨husers₁, hvaults₁, -, -, hins⟩ := insertVaultKey_ok hkey
  obtain ⟨husers, hkeys, hvaults⟩ := insertSyncEvent_rows h
  exact ⟨hne, husers.trans husers₁, hvaults.trans hvaults₁, by rw [hkeys, hins]⟩

/-! ## Accounts -/

theorem holdsKey_mono (hsub : ∀ k ∈ db.vaultKeys, k ∈ db'.vaultKeys) (h : db'.holdsKey userId vaultId = false) :
    db.holdsKey userId vaultId = false := by
  rw [Bool.eq_false_iff] at h ⊢
  intro hholds
  obtain ⟨k, hk, hrest⟩ := Db.holdsKey_iff.mp hholds
  exact h (Db.holdsKey_iff.mpr ⟨k, hsub k hk, hrest⟩)

theorem acceptInvitation_access {invitation : Invitation}
    (h : acceptInvitation mode seen db userId invitation = .ok db') :
    Table.Maps (User.joined userId invitation.teamId invitation.role) db.users db'.users ∧ db'.vaults = db.vaults ∧
      AddsKeys (fun k => db.holdsKey userId k.vaultId = false ∧
        ∃ a ∈ invitation.pendingVaultKeys, k = a.row userId invitation.role.vaultRole) db.vaultKeys db'.vaultKeys := by
  unfold acceptInvitation at h
  split at h; · cases h
  simp only [Except.guard_ok_iff] at h
  obtain ⟨-, h⟩ := h
  split at h; · cases h
  simp only [Except.guard_ok_iff, Except.bind_ok_iff] at h
  obtain ⟨-, ⟨⟩, -, h⟩ := h
  let joined : Db := { db with
    users := db.users.updateWhere (fun u => u.id = userId) fun u =>
      { u with teamId := some invitation.teamId, role := invitation.role } }
  have hstep : ∀ (d : Db) (a : PendingVaultKey) (d' : Db), (∀ k ∈ joined.vaultKeys, k ∈ d.vaultKeys) →
      (do
        validateEncryptedVaultKey a.encryptedVaultKey
        if d.holdsKey userId a.vaultId then return d
        insertVaultKey d (a.row userId invitation.role.vaultRole) "Failed to provision vault access") = .ok d' →
      d'.users = d.users ∧ d'.vaults = d.vaults ∧ AddsKeys (fun k => db.holdsKey userId k.vaultId = false ∧
        k = a.row userId invitation.role.vaultRole) d.vaultKeys d'.vaultKeys := by
    intro d a d' hsub hstep
    simp only [Except.bind_ok_iff] at hstep
    obtain ⟨⟨⟩, -, hstep⟩ := hstep
    split at hstep
    · cases hstep
      exact ⟨rfl, rfl, .refl _ _⟩
    · next hnot =>
      obtain ⟨husers, hvaults, -, -, hins⟩ := insertVaultKey_ok hstep
      have hadds := AddsKeys.insert hins
      refine ⟨husers, hvaults, hadds.kept, fun k hk => (hadds.only k hk).imp_right fun heq => ⟨?_, heq⟩⟩
      subst heq
      exact holdsKey_mono hsub (Bool.eq_false_iff.mpr hnot)
  obtain ⟨husers, hvaults, hkeys⟩ := addsKeys_foldlM hstep h
  refine ⟨fun u => ?_, hvaults, hkeys.kept, fun k hk => (hkeys.only k hk).imp_right ?_⟩
  · rw [husers]
    simp only [joined, Table.mem_updateWhere, decide_eq_true_eq, User.joined]
  · rintro ⟨a, ha, hnot, heq⟩
    exact ⟨hnot, a, ha, heq⟩

theorem registerUser_access {user : User} {keyId encryptedVaultKey : String} {invitation : Option Invitation}
    (h : registerUser seen db user vaultId keyId encryptedVaultKey invitation = .ok db') :
    ∃ (v : Vault) (keys : Table VaultKey.id), v.id = vaultId ∧ v.type = .personal ∧ v.createdById = user.id ∧
      v.keyVersion = 1 ∧ db.users.insert user = some db'.users ∧ db.vaults.insert v = some db'.vaults ∧
      db.vaultKeys.insert ⟨keyId, vaultId, user.id, encryptedVaultKey, .owner⟩ = some keys ∧
      AddsKeys (fun k => ∃ i, invitation = some i ∧ ∃ a ∈ i.pendingVaultKeys, k = a.row user.id i.role.vaultRole) keys
        db'.vaultKeys := by
  simp only [registerUser, Except.bind_ok_iff] at h
  obtain ⟨⟨⟩, -, h⟩ := h
  split at h; · cases h
  next users hins =>
  simp only [Except.bind_ok_iff] at h
  obtain ⟨⟨⟩, -, db₁, hvault, db₂, hkey, h⟩ := h
  obtain ⟨husers₁, hkeys₁, hinsvault⟩ := insertVault_ok hvault
  obtain ⟨husers₂, hvaults₂, -, -, hinskey⟩ := insertVaultKey_ok hkey
  have hstep : ∀ (d : Db) (a : VaultRole × PendingVaultKey) (d' : Db), (∀ k ∈ db₂.vaultKeys, k ∈ d.vaultKeys) →
      (do
        validateEncryptedVaultKey a.2.encryptedVaultKey
        insertVaultKey d (a.2.row user.id a.1) "Failed to provision invited vault access") = .ok d' →
      d'.users = d.users ∧ d'.vaults = d.vaults ∧ AddsKeys (fun k => k = a.2.row user.id a.1) d.vaultKeys d'.vaultKeys := by
    intro d a d' _ hstep
    simp only [Except.bind_ok_iff] at hstep
    obtain ⟨⟨⟩, -, hstep⟩ := hstep
    obtain ⟨husers, hvaults, -, -, hins⟩ := insertVaultKey_ok hstep
    exact ⟨husers, hvaults, .insert hins⟩
  obtain ⟨husers, hvaults, hkeys⟩ := addsKeys_foldlM hstep h
  rw [← hvaults₂, ← hvaults] at hinsvault
  rw [hkeys₁] at hinskey
  refine ⟨_, db₂.vaultKeys, ?_, ?_, ?_, ?_, ?_, hinsvault, hinskey, hkeys.kept, fun k hk => (hkeys.only k hk).imp_right ?_⟩
  · rfl
  · rfl
  · rfl
  · rfl
  · rw [husers, husers₂, husers₁, hins]
  · rintro ⟨a, ha, heq⟩
    cases invitation with
    | none => cases ha
    | some i =>
      obtain ⟨b, hb, rfl⟩ := List.mem_map.mp ha
      exact ⟨i, rfl, b, hb, heq⟩

theorem applyEncryptedVaultKeyUpdates_access {keys : List (String × String)}
    (h : applyEncryptedVaultKeyUpdates db userId keys = .ok db') :
    RewritesKeys (VaultKey.submitted userId keys) db db' := by
  refine @Except.foldlM_ok _ _ _ _ (fun done d => RewritesKeys (VaultKey.submitted userId done) db d) ?_ keys [] db db'
    ⟨rfl, rfl, submitted_nil_maps userId db.vaultKeys⟩ h
  rintro done a d d' ⟨husers, hvaults, hkeys⟩ hstep
  simp only [Except.bind_ok_iff, Except.pure_ok_iff] at hstep
  obtain ⟨⟨⟩, -, rfl⟩ := hstep
  refine ⟨husers, hvaults, fun k' => ?_⟩
  have hrow : Table.Maps (fun k => if k.vaultId = a.1 ∧ k.userId = userId then { k with encryptedVaultKey := a.2 } else k)
      d.vaultKeys (updateVaultKeyRow d a.1 userId fun r => { r with encryptedVaultKey := a.2 }).vaultKeys :=
    updateVaultKeyRow_maps _ fun _ => rfl
  have hboth := hkeys.trans hrow
  rw [hboth k']
  simp only [submitted_concat, Function.comp]

theorem deleteVaults_access (vaultIds : List String) (db : Db) :
    (vaultIds.foldl deleteVaultRows db).users = db.users ∧ DeletesAccess (fun _ => False) (·.id ∈ vaultIds)
      (·.vaultId ∈ vaultIds) db (vaultIds.foldl deleteVaultRows db) := by
  induction vaultIds generalizing db with
  | nil => exact ⟨rfl, fun u => by simp, fun v => by simp, fun k => by simp⟩
  | cons vaultId vaultIds ih =>
    obtain ⟨husers, hrest⟩ := ih (deleteVaultRows db vaultId)
    have hfirst := deleteVaultRows_access db vaultId
    refine ⟨husers, fun u => ?_, fun v => ?_, fun k => ?_⟩
    · rw [List.foldl_cons, hrest.users, hfirst.users]
      simp
    · rw [List.foldl_cons, hrest.vaults, hfirst.vaults, List.mem_cons, not_or, and_assoc]
    · rw [List.foldl_cons, hrest.keys, hfirst.keys, List.mem_cons, not_or, and_assoc]

theorem mem_createdVaults {id : String} :
    id ∈ createdVaults db userId ↔ ∃ v ∈ db.vaults, v.createdById = userId ∧ v.id = id := by
  simp only [createdVaults, List.mem_map, Table.mem_select, decide_eq_true_eq, and_assoc]

theorem deleteAccount_access (h : deleteAccount db userId = .ok db') :
    DeletesAccess (·.id = userId) (·.createdById = userId)
      (fun k => k.userId = userId ∨ ∃ v ∈ db.vaults, v.createdById = userId ∧ v.id = k.vaultId) db db' := by
  simp only [deleteAccount, Except.guard_ok_iff, Except.pure_ok_iff] at h
  obtain ⟨-, rfl⟩ := h
  obtain ⟨husers, hdel⟩ := deleteVaults_access (createdVaults db userId) db
  refine ⟨fun u => ?_, fun v => ?_, fun k => ?_⟩
  · show u ∈ Table.deleteWhere _ _ ↔ _
    rw [Table.mem_deleteWhere, husers, decide_eq_false_iff_not]
  · show v ∈ ((createdVaults db userId).foldl deleteVaultRows db).vaults ↔ _
    rw [hdel.vaults]
    refine and_congr_right fun hv => not_congr ?_
    rw [mem_createdVaults]
    constructor
    · rintro ⟨w, hw, hcreated, hid⟩
      rwa [← Table.eq_of_key_eq hw hv hid]
    · exact fun hcreated => ⟨v, hv, hcreated, rfl⟩
  · show k ∈ Table.deleteWhere _ _ ↔ _
    rw [Table.mem_deleteWhere, hdel.keys, decide_eq_false_iff_not, mem_createdVaults, and_assoc, not_or, and_comm (b := ¬ _)]

/-! ## Every transaction -/

theorem finalizeRemovalTx_access {tx tx' : Versions Db} {begun now : Time} {actorId targetId planId rotationId : String}
    {result : RotationResult}
    (h : finalizeRemovalTx mode tx begun now actorId vaultId targetId planId rotationId = .ok (tx', result)) :
    ∃ plan es, tx.snapshot.plans.get? planId = some plan ∧ plan.vaultId = vaultId ∧
      plan.excludedUserId = some targetId ∧ FinalizedInTurn actorId [plan] es tx tx' := by
  simp only [finalizeRemovalTx, Except.bind_ok_iff, Except.guard_ok_iff, Except.mapError_ok_iff] at h
  obtain ⟨policy, hpolicy, hmatch, h⟩ := h
  have hplan := (lockPlanPolicy_ok hpolicy).1
  simp only [not_or, not_not] at hmatch
  split at h
  · simp only [Except.bind_ok_iff, Except.guard_ok_iff, Except.mapError_ok_iff] at h
    obtain ⟨⟨⟩, -, ⟨⟩, -, -, ⟨⟩, -, ⟨⟩, -, h⟩ := h
    obtain ⟨plan, vault, es, hf, hevents, hrevokes⟩ := finalizeLockedPlan_events h
    obtain rfl : plan = policy := Option.some.inj (hf.locked.foundPlan.symm.trans hplan)
    have hturn : FinalizedInTurn actorId [plan] (es ++ []) tx tx' :=
      .cons hf hevents hrevokes (by simp) (by simp) (.nil tx')
    exact ⟨plan, _, hplan, hmatch.1, hmatch.2.2.1, hturn⟩
  · cases h

theorem SameAccess.rollback (db : Db) (e : Aborted) : SameAccess db (e.rollback db).1 := by
  cases e with
  | failed e => exact .refl db
  | stale planId reason => exact .of_eq rfl rfl rfl

/-- **What each transaction does to users, vaults and keys.** -/
theorem Transaction.access {d : Deployment} {h : History} {t : Transaction} (hrun : t.run d h = some db') :
    t.Access h db' := by
  cases t with
  | item userId request seen acl =>
    obtain ⟨_, -, _, -, hrun⟩ := History.ran₂ hrun
    exact ItemRequest.sameAccess hrun
  | createAttachment userId clientId input seen acl =>
    obtain ⟨_, -, _, -, hrun⟩ := History.ran₂ hrun
    obtain ⟨_, _, _, _, -, -, -, -, -, -, -, rfl⟩ := createVaultAttachment_ok hrun
    exact SameAccess.of_eq rfl rfl rfl
  | updateAttachment userId clientId input seen acl =>
    obtain ⟨_, -, _, -, hrun⟩ := History.ran₂ hrun
    obtain ⟨_, _, -, rfl⟩ := updateVaultAttachment_ok hrun
    exact SameAccess.of_eq rfl rfl rfl
  | deleteAttachment userId clientId attachmentId seen acl =>
    obtain ⟨_, -, _, -, hrun⟩ := History.ran₂ hrun
    obtain ⟨_, rfl⟩ := deleteVaultAttachment_ok hrun
    exact SameAccess.of_eq rfl rfl rfl
  | createVault userId generatedId keyId input seen =>
    obtain ⟨db, hdb, hrun⟩ := History.ran hrun
    obtain ⟨v, hv⟩ := createVault_access hrun
    exact ⟨db, v, hdb, hv⟩
  | updateVault userId input seen =>
    obtain ⟨_, -, hrun⟩ := History.ran hrun
    exact updateVault_sameAccess hrun
  | convertVaultType userId input seen =>
    obtain ⟨db, hdb, hrun⟩ := History.ran hrun
    exact ⟨db, hdb, convertVaultType_access hrun⟩
  | deleteVault userId clientId vaultId seen listed =>
    obtain ⟨_, -, _, -, hrun⟩ := History.ran₂ hrun
    exact deleteVault_access hrun
  | updateVaultMemberRole userId input seen =>
    obtain ⟨_, -, hrun⟩ := History.ran hrun
    exact updateVaultMemberRole_access hrun
  | addVaultMember userId keyId input seen =>
    obtain ⟨_, -, hrun⟩ := History.ran hrun
    exact addVaultMember_access hrun
  | acceptInvitation userId invitation seen =>
    obtain ⟨_, -, hrun⟩ := History.ran hrun
    exact acceptInvitation_access hrun
  | registerUser user vaultId keyId encryptedVaultKey invitation seen =>
    obtain ⟨_, -, hrun⟩ := History.ran hrun
    exact registerUser_access hrun
  | updateVaultKeys userId keys => exact applyEncryptedVaultKeyUpdates_access (Except.toOption_eq_some_iff.mp hrun)
  | deleteAccount userId => exact deleteAccount_access (Except.toOption_eq_some_iff.mp hrun)
  | accounts users sessions teams =>
    simp only [run] at hrun
    split at hrun
    · cases hrun
      exact ⟨rfl, rfl, rfl⟩
    · cases hrun
  | cleanupTombstones cutoff seen =>
    obtain ⟨_, -, hrun⟩ := History.ran hrun
    exact cleanupTombstones_sameAccess hrun
  | finalizeRemoval begun now actorId vaultId targetId planId rotationId snap =>
    simp only [run, Option.bind_eq_bind, Option.bind_eq_some_iff, Option.pure_def, Option.some.injEq] at hrun
    obtain ⟨snapshot, hsnap, rfl⟩ := hrun
    refine ⟨snapshot, hsnap, ?_⟩
    unfold Bittery.finalizeRemoval commitOrRollback
    split
    · next tx' result hok =>
      obtain ⟨plan, es, hplan, hv, hx, hturn⟩ := finalizeRemovalTx_access hok
      exact .inr ⟨plan, es, tx', hplan, hv, hx, hturn, rfl⟩
    · exact .inl (.rollback _ _)
  | finalizeDeparture begun now teamId actorId targetId intent plans personalTeamId snap =>
    simp only [run, Option.bind_eq_bind, Option.bind_eq_some_iff, Option.pure_def, Option.some.injEq] at hrun
    obtain ⟨snapshot, hsnap, rfl⟩ := hrun
    refine ⟨snapshot, hsnap, ?_⟩
    unfold Bittery.finalizeDeparture commitOrRollback
    split
    · next tx' result hok =>
      obtain ⟨target, team, ps, es, tx₁, htarget, hteam, -, hps, hturn, hmove⟩ := finalizeDepartureTx_ok hok
      exact .inr ⟨target, ps, es, tx₁, tx', htarget, hteam, hps, hturn, hmove, rfl⟩
    · exact .inl (.rollback _ _)
  | pruneSyncEvents upTo =>
    cases hrun
    exact SameAccess.of_eq rfl rfl rfl
  | recordStale planId reason =>
    cases hrun
    exact SameAccess.of_eq rfl rfl rfl
  | cleanupRotationPlans now locked limit =>
    cases hrun
    exact SameAccess.of_eq rfl rfl rfl
  | createRemovalPlan now planId actorId vaultId targetId seen snap =>
    simp only [run, Option.bind_eq_bind, Option.bind_eq_some_iff, Except.toOption_eq_some_iff, Option.guard_eq_some',
      exists_const] at hrun
    obtain ⟨hfresh, _, -, snapshot, hsnap, hrun⟩ := hrun
    exact PlansEvolve.sameAccess (createRemovalPlan_evolves trivial hrun)
  | createDeparturePlan now planId teamId actorId targetId intent vaultId seen snap =>
    simp only [run, Option.bind_eq_bind, Option.bind_eq_some_iff, Except.toOption_eq_some_iff, Option.guard_eq_some',
      exists_const] at hrun
    obtain ⟨hfresh, _, -, snapshot, hsnap, hrun⟩ := hrun
    exact PlansEvolve.sameAccess (createDeparturePlan_evolves trivial hrun)
  | readPreparationPage now planId userId kind cursor limit =>
    obtain ⟨⟨db', page⟩, hpage, rfl⟩ := Except.map_ok_iff.mp (Except.toOption_eq_some_iff.mp hrun)
    exact PlansEvolve.sameAccess (readPreparationPage_evolves hpage)
  | stageOutputs now planId userId kind outputs =>
    exact PlansEvolve.sameAccess
      (stageOutputs_evolves (fun _ _ _ _ => trivial) (Except.toOption_eq_some_iff.mp hrun))
  | abandonPlan now planId userId =>
    exact PlansEvolve.sameAccess (abandonPlan_evolves (Except.toOption_eq_some_iff.mp hrun))

end Bittery
