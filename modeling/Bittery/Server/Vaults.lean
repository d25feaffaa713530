/-
Vaults and their members: `domains/vaults/catalog.rs` and `domains/vaults/members.rs`.

Checks that read from the pool read `seen`; the transaction commits on `db`. Ids the
server generates are inputs.

Left out: the object of an image (its key is kept) and the audit records.
-/
import Bittery.Server.Items

namespace Bittery

open Lib

/-! ## Texts -/

/-- The characters `str::trim` removes (`White_Space`). -/
def isWhiteSpace (c : Char) : Bool :=
  let n := c.toNat
  (9 ≤ n && n ≤ 13) || n = 0x20 || n = 0x85 || n = 0xA0 || n = 0x1680 || (0x2000 ≤ n && n ≤ 0x200A) ||
    n = 0x2028 || n = 0x2029 || n = 0x202F || n = 0x205F || n = 0x3000

/-- `str::trim`. -/
def trim (s : String) : String :=
  String.ofList ((s.toList.dropWhile isWhiteSpace).reverse.dropWhile isWhiteSpace).reverse

def ENCRYPTED_VAULT_KEY_MAX_BYTES : Nat := 64 * 1024

def VAULT_NAME_MAX_CHARS : Nat := 200

def validateEncryptedVaultKey (value : String) : Except AppError Unit :=
  if trim value = "" || ENCRYPTED_VAULT_KEY_MAX_BYTES < value.utf8ByteSize then
    .error (.badRequest "Invalid encrypted vault key")
  else .ok ()

def invalidVaultName (name : String) : Bool := trim name = "" || VAULT_NAME_MAX_CHARS < name.length

/-! ## Statements -/

/-- `INSERT INTO vault_key`. -/
def insertVaultKey (db : Db) (key : VaultKey) (context : String) : Except AppError Db := do
  if ¬ (db.hasVault key.vaultId && (db.users.get? key.userId).isSome) then throw (.internal context)
  match db.vaultKeys.insert key with
  | some vaultKeys => return { db with vaultKeys := vaultKeys }
  | none => throw (.internal context)

/-- `INSERT INTO vault`. -/
def insertVault (db : Db) (vault : Vault) (context : String) : Except AppError Db := do
  if ¬ ((db.users.get? vault.createdById).isSome && vault.teamId.all fun t => (db.teams.get? t).isSome) then
    throw (.internal context)
  match db.vaults.insert vault with
  | some vaults => return { db with vaults := vaults }
  | none => throw (.internal context)

/-- `UPDATE vault SET … WHERE id`. -/
def updateVaultRow (db : Db) (vaultId : String) (f : Vault → Vault) : Db :=
  { db with vaults := db.vaults.updateWhere (fun v => v.id = vaultId) fun v => { f v with id := v.id } }

/-- `UPDATE vault_key SET … WHERE vault_id AND user_id`. -/
def updateVaultKeyRow (db : Db) (vaultId userId : String) (f : VaultKey → VaultKey) : Db :=
  { db with
    vaultKeys := db.vaultKeys.updateWhere (fun k => k.vaultId = vaultId && k.userId = userId) fun k =>
      { f k with id := k.id } }

/-- `DELETE FROM vault` after the explicit deletes, with what goes with the row: the
attachments of the deleted items, the rotation plans and records; events lose their vault. -/
def deleteVaultRows (db : Db) (vaultId : String) : Db :=
  let gone := fun itemId => db.items.any fun i => i.vaultId = vaultId && i.id = itemId
  { db with
    attachments := db.attachments.deleteWhere fun a => a.vaultId = vaultId || gone a.itemId
    items := db.items.deleteWhere fun i => i.vaultId = vaultId
    vaultKeys := db.vaultKeys.deleteWhere fun k => k.vaultId = vaultId
    vaults := db.vaults.deleteWhere fun v => v.id = vaultId
    plans := db.plans.deleteWhere fun p => p.vaultId = vaultId
    rotations := db.rotations.deleteWhere fun r => r.vaultId = vaultId
    events := db.events.map fun e => if e.vaultId = some vaultId then { e with vaultId := none } else e }

/-! ## The catalog -/

/-- The team a shared vault is created in, and the limit on their number. -/
def loadSharingTeam (db : Db) (mode : DeploymentMode) (userId noTeam : String) :
    Except AppError (String × Option Nat) :=
  match loadTeamBillingEntitlement db userId with
  | some (some teamId, some plan, some status) =>
    let (allowed, limit) := resolveVaultSharingEntitlement mode (some plan) (some status)
    if allowed then .ok (teamId, limit)
    else .error (.forbidden "Shared vaults are only available on Family or Team plans with active billing.")
  | _ => .error (.badRequest noTeam)

def assertSharedVaultQuota (db : Db) (teamId : String) (limit : Option Nat) : Except AppError Unit :=
  match limit with
  | none => .ok ()
  | some limit =>
    if limit ≤ db.vaults.count fun v => v.teamId = some teamId && v.type = .team then
      .error (.forbidden s!"Your current plan allows up to {limit} shared vaults. Upgrade to add more.")
    else .ok ()

structure CreateVaultInput where
  vaultId : Option String
  name : String
  vaultType : VaultType
  encryptedVaultKey : String
  icon : Option String
  imageKey : Option String
  clientId : Option String
deriving DecidableEq, Repr

def createVault (mode : DeploymentMode) (seen db : Db) (userId generatedId keyId : String) (input : CreateVaultInput) :
    Except AppError Db := do
  if invalidVaultName input.name || (validateEncryptedVaultKey input.encryptedVaultKey).toBool = false then
    throw (.badRequest "Invalid params")
  let vaultId := input.vaultId.getD generatedId
  let team ← match input.vaultType with
    | .personal => pure none
    | .team => some <$> loadSharingTeam seen mode userId "You must belong to a team to create a team vault"
  team.forM fun t => assertSharedVaultQuota db t.1 t.2
  let db ← insertVault db
    { id := vaultId, name := trim input.name, icon := input.icon, imageKey := input.imageKey,
      type := input.vaultType, createdById := userId, teamId := team.map (·.1) } "Failed to create vault"
  let db ← insertVaultKey db
    { id := keyId, vaultId := vaultId, userId := userId, encryptedVaultKey := input.encryptedVaultKey, role := .owner }
    "Failed to create vault key"
  db.insertSyncEvent .vaultCreated vaultId .vault vaultId userId 1 input.clientId none

/-- The vault and the role of the caller in it. -/
def loadVaultWithRole (db : Db) (vaultId userId denied : String) : Except AppError (Vault × VaultRole) :=
  match db.vaults.get? vaultId, db.vaultKeys.rows.find? fun k => k.vaultId = vaultId && k.userId = userId with
  | some v, some k => .ok (v, k.role)
  | _, _ => .error (.forbidden denied)

structure UpdateVaultInput where
  vaultId : String
  name : Option String
  icon : Option (Option String)
  imageKey : Option (Option String)
  clientId : Option String
deriving DecidableEq, Repr

def updateVault (seen db : Db) (userId : String) (input : UpdateVaultInput) : Except AppError Db := do
  if input.name.any invalidVaultName then throw (.badRequest "Invalid params")
  let (current, role) ← loadVaultWithRole seen input.vaultId userId "Access denied"
  if ¬ role.canManage then throw (.forbidden "Access denied")
  let db := updateVaultRow db input.vaultId fun v =>
    { v with
      name := (input.name.map trim).getD current.name
      icon := input.icon.getD current.icon
      imageKey := input.imageKey.getD current.imageKey }
  db.insertSyncEvent .vaultUpdated input.vaultId .vault input.vaultId userId 1 input.clientId none

structure ConvertVaultTypeInput where
  vaultId : String
  targetType : VaultType
  personalEncryptedVaultKey : Option String
  clientId : Option String
deriving DecidableEq, Repr

/-- What the transaction of `convert_vault_type` writes, from a vault read as `current`. -/
def convertVaultRows (mode : DeploymentMode) (seen db : Db) (userId : String) (current : Vault)
    (input : ConvertVaultTypeInput) : Except AppError Db :=
  match current.type, input.targetType with
  | .personal, .team => do
    let (teamId, limit) ← loadSharingTeam seen mode userId "You must belong to a team to convert to a shared vault"
    assertSharedVaultQuota db teamId limit
    return updateVaultRow db input.vaultId fun v => { v with type := .team, teamId := some teamId }
  | .team, .personal =>
    match db.vaultKeys.select fun k => k.vaultId = input.vaultId with
    | [k] =>
      if k.role ≠ .owner then
        .error (.badRequest "Team vault can only be converted to personal when the owner is the only member")
      else
        let db := updateVaultRow db input.vaultId fun v => { v with type := .personal, teamId := none }
        match input.personalEncryptedVaultKey with
        | none => .ok db
        | some key => .ok (updateVaultKeyRow db input.vaultId userId fun k => { k with encryptedVaultKey := key })
    | _ => .error (.badRequest "Team vault can only be converted to personal when the owner is the only member")
  | _, _ => .error (.badRequest "Vault is already the requested type")

def convertVaultType (mode : DeploymentMode) (seen db : Db) (userId : String) (input : ConvertVaultTypeInput) :
    Except AppError Db := do
  input.personalEncryptedVaultKey.forM validateEncryptedVaultKey
  let (current, role) ← loadVaultWithRole seen input.vaultId userId "Only the vault owner can convert vault type"
  if role ≠ .owner then throw (.forbidden "Only the vault owner can convert vault type")
  let db ← convertVaultRows mode seen db userId current input
  db.insertSyncEvent .vaultUpdated input.vaultId .vault input.vaultId userId 1 input.clientId none

/-- The other members of a vault, as they were read before the transaction. -/
def otherMembers (db : Db) (vaultId userId : String) : List String :=
  ((db.vaultKeys.select fun k => k.vaultId = vaultId).map (·.userId)).filter (· ≠ userId)

/-- The role of the caller and the members to notify are two reads, of `seen` and of `listed`. -/
def deleteVault (seen listed db : Db) (userId : String) (clientId : Option String) (vaultId : String) :
    Except AppError Db := do
  let (_, role) ← loadVaultWithRole seen vaultId userId "Only the vault owner can delete the vault"
  if role ≠ .owner then throw (.forbidden "Only the vault owner can delete the vault")
  let db ← db.insertSyncEvent .vaultDeleted vaultId .vault vaultId userId 1 clientId none
  let db ← (otherMembers listed vaultId userId).foldlM (fun db member =>
    db.insertSyncEvent .vaultAccessRevoked vaultId .vault vaultId member 1 clientId (some (.vaultDeleted vaultId))) db
  return deleteVaultRows db vaultId

/-! ## Members -/

def validateVaultMemberRole (role : VaultRole) : Except AppError VaultRole :=
  match role with
  | .owner => .error (.badRequest "Invalid member role")
  | role => .ok role

/-- What a manager may not do to a member, self-removal apart. -/
inductive MemberManagementViolation
  | selfAction | insufficientPermissions | targetIsOwner | adminManagingAdmin
deriving DecidableEq, Repr

def memberRoleViolation (actor target : VaultRole) : Option MemberManagementViolation :=
  if ¬ actor.canManage then some .insufficientPermissions
  else if target = .owner then some .targetIsOwner
  else if actor = .admin ∧ target = .admin then some .adminManagingAdmin
  else none

def authorizeRoleChange (actor target : VaultRole) : Except AppError Unit :=
  match memberRoleViolation actor target with
  | none => .ok ()
  | some .targetIsOwner => .error (.forbidden "Cannot change vault owner's role")
  | some .adminManagingAdmin => .error (.forbidden "Admins cannot change other admins")
  | some _ => .error (.forbidden "Only vault owner or admin can manage members")

/-- `assert_vault_sharing_available`. -/
def assertVaultSharingAvailable (db : Db) (mode : DeploymentMode) (userId : String) : Except AppError Unit :=
  let unavailable := AppError.forbidden
    "Shared vault management is only available on Family or Team plans with active billing."
  match mode, loadTeamBillingEntitlement db userId with
  | .selfHosted, _ => .ok ()
  | .cloud, none => .error unavailable
  | .cloud, some (_, plan, status) =>
    if (resolveVaultSharingEntitlement .cloud (some (plan.getD .free)) (some (status.getD .none))).1 then .ok ()
    else .error unavailable

def loadManagedTeamVaultActor (db : Db) (mode : DeploymentMode) (vaultId userId : String) :
    Except AppError (VaultRole × Option String) := do
  let (vault, role) ← loadVaultWithRole db vaultId userId "Access denied to this vault"
  assertVaultSharingAvailable db mode userId
  if ¬ role.canManage then throw (.forbidden "Only vault owner or admin can manage members")
  if vault.type ≠ .team || vault.teamId = none then
    throw (.badRequest "Only team vaults support adding members")
  return (role, vault.teamId)

structure UpdateVaultMemberRoleInput where
  vaultId : String
  userId : String
  role : VaultRole
deriving DecidableEq, Repr

/-- Records no event. -/
def updateVaultMemberRole (mode : DeploymentMode) (seen db : Db) (userId : String) (input : UpdateVaultMemberRoleInput) :
    Except AppError Db := do
  let role ← validateVaultMemberRole input.role
  let actor ← loadManagedTeamVaultActor seen mode input.vaultId userId
  if input.userId = userId then throw (.badRequest "Cannot change your own role")
  match loadVaultAccess seen input.vaultId input.userId with
  | .error _ => throw (.notFound "Member not found")
  | .ok target =>
    authorizeRoleChange actor.1 target
    return updateVaultKeyRow db input.vaultId input.userId fun k => { k with role := role }

structure AddVaultMemberInput where
  vaultId : String
  userId : String
  role : VaultRole
  encryptedVaultKey : String
  clientId : Option String
deriving DecidableEq, Repr

def addVaultMember (mode : DeploymentMode) (seen db : Db) (userId keyId : String) (input : AddVaultMemberInput) :
    Except AppError Db := do
  validateEncryptedVaultKey input.encryptedVaultKey
  let role ← validateVaultMemberRole input.role
  let actor ← loadManagedTeamVaultActor seen mode input.vaultId userId
  match seen.users.get? input.userId with
  | none => throw (.notFound "User not found")
  | some target =>
    if target.teamId ≠ actor.2 then throw (.badRequest "User must belong to the same team as this vault")
    if seen.holdsKey input.userId input.vaultId then throw (.conflict "User is already a member of this vault")
    let db ← insertVaultKey db
      { id := keyId, vaultId := input.vaultId, userId := input.userId,
        encryptedVaultKey := input.encryptedVaultKey, role := role } "Failed to add vault member"
    db.insertSyncEvent .vaultMemberAdded input.userId .vaultMember input.vaultId userId 1 input.clientId
      (some (.memberAdded input.userId role))

end Bittery
