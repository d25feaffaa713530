/-
Where an account's own requests and the background jobs write vault keys, vaults and items:
`domains/teams/invitations.rs`, `domains/auth/registration.rs`, `domains/auth/credentials.rs`,
`domains/auth/recovery.rs` and `jobs/sql.rs`.

Of an account and an invitation only what these writes read is kept.
-/
import Bittery.Server.Vaults

namespace Bittery

open Lib

/-! ## Invitations and registration -/

structure PendingVaultKey where
  keyId : String
  vaultId : String
  encryptedVaultKey : String
deriving DecidableEq, Repr

/-- `assert_invitation_pending_vault_keys_are_authorized`; the vaults are pairwise different. -/
def assertPendingVaultKeysAuthorized (db : Db) (teamId inviterId : String) (keys : List PendingVaultKey) :
    Except AppError Unit := do
  if ¬ keys.all fun k => (db.vaults.get? k.vaultId).any fun v => v.teamId = some teamId then
    throw (.badRequest "pendingVaultKeys contains vaults outside the invited team")
  if ¬ keys.all fun k => db.vaultKeys.any fun r => r.userId = inviterId && r.vaultId = k.vaultId && r.role.canManage then
    throw (.forbidden "You do not have permission to grant access for one or more vaults")

def TeamRole.vaultRole : TeamRole → VaultRole
  | owner | admin => .admin
  | member => .member

/-- A pending invitation: what accepting it reads. -/
structure Invitation where
  teamId : String
  role : TeamRole
  invitedById : String
  pendingVaultKeys : List PendingVaultKey
deriving DecidableEq, Repr

/-- Joins the team and inserts the keys the user does not have yet. Records no event. -/
def acceptInvitation (mode : DeploymentMode) (seen db : Db) (userId : String) (invitation : Invitation) :
    Except AppError Db := do
  match seen.teams.get? invitation.teamId with
  | none => throw (.notFound "Invitation not found or already used")
  | some team =>
    if ¬ teamManagementEnabled mode team.billingPlan team.billingStatus then
      throw (.forbidden "Team management is only available on Family or Team plans with active billing.")
    match seen.users.get? userId with
    | none => throw (.notFound "User not found")
    | some user =>
      if user.teamId.isSome then throw (.badRequest "You already belong to a team")
      assertPendingVaultKeysAuthorized seen invitation.teamId invitation.invitedById invitation.pendingVaultKeys
      let db := { db with
        users := db.users.updateWhere (fun u => u.id = userId) fun u =>
          { u with teamId := some invitation.teamId, role := invitation.role } }
      invitation.pendingVaultKeys.foldlM (fun db k => do
        validateEncryptedVaultKey k.encryptedVaultKey
        if db.holdsKey userId k.vaultId then return db
        insertVaultKey db
          { id := k.keyId, vaultId := k.vaultId, userId := userId, encryptedVaultKey := k.encryptedVaultKey,
            role := invitation.role.vaultRole } "Failed to provision vault access") db

/-- The writes of a registration: the user, the personal vault with its key, and the keys
an invitation provides. Records no event. -/
def registerUser (seen db : Db) (user : User) (vaultId keyId encryptedVaultKey : String)
    (invitation : Option Invitation) : Except AppError Db := do
  invitation.forM fun i => assertPendingVaultKeysAuthorized seen i.teamId i.invitedById i.pendingVaultKeys
  match db.users.insert user with
  | none => throw (.internal "Failed to create user")
  | some users =>
    validateEncryptedVaultKey encryptedVaultKey
    let db ← insertVault { db with users := users }
      { id := vaultId, name := "Personal", icon := some "lock", type := .personal, createdById := user.id,
        teamId := none } "Failed to create personal vault"
    let db ← insertVaultKey db
      { id := keyId, vaultId := vaultId, userId := user.id, encryptedVaultKey := encryptedVaultKey, role := .owner }
      "Failed to create personal vault key"
    (invitation.elim [] fun i => i.pendingVaultKeys.map fun k => (i.role.vaultRole, k)).foldlM (fun db k => do
      validateEncryptedVaultKey k.2.encryptedVaultKey
      insertVaultKey db
        { id := k.2.keyId, vaultId := k.2.vaultId, userId := user.id, encryptedVaultKey := k.2.encryptedVaultKey,
          role := k.1 } "Failed to provision invited vault access") db

/-! ## Keys under a new wrapping key -/

/-- `apply_encrypted_vault_key_updates`, as a password change, a new secret key and a
recovery use it on the caller's own keys. Records no event. -/
def applyEncryptedVaultKeyUpdates (db : Db) (userId : String) (keys : List (String × String)) : Except AppError Db :=
  keys.foldlM (fun db k => do
    validateEncryptedVaultKey k.2
    return updateVaultKeyRow db k.1 userId fun r => { r with encryptedVaultKey := k.2 }) db

/-! ## Deleting an account -/

/-- The vaults that go with a user: those the user created. -/
def createdVaults (db : Db) (userId : String) : List String :=
  (db.vaults.select fun v => v.createdById = userId).map (·.id)

/-- `DELETE FROM "user"`, with what the foreign keys delete with it. The rows another
user's vault keeps (an item the user was the last to change or seal, an attachment the user
uploaded, a team others are in) refuse the delete. Records no event, and the events the
user caused are deleted. -/
def deleteAccount (db : Db) (userId : String) : Except AppError Db := do
  let owned := fun teamId => db.teams.any fun t => t.ownerId = userId && t.id = teamId
  let db' := (createdVaults db userId).foldl deleteVaultRows db
  let db' := { db' with
    users := db'.users.deleteWhere fun u => u.id = userId
    sessions := db'.sessions.deleteWhere fun s => s.userId = userId
    teams := db'.teams.deleteWhere fun t => t.ownerId = userId
    vaultKeys := db'.vaultKeys.deleteWhere fun k => k.userId = userId
    plans := db'.plans.deleteWhere fun p => p.initiatorUserId = userId
    rotations := db'.rotations.deleteWhere fun r => r.initiatedById = userId
    events := db'.events.filter fun e => e.userId ≠ userId }
  if (db'.items.any fun i => i.lastModifiedBy = userId || i.encryptedByUserId = userId) ||
      (db'.attachments.any fun a => a.uploadedBy = userId) ||
      (db'.users.any fun u => u.teamId.any owned) || (db'.vaults.any fun v => v.teamId.any owned) then
    throw (.internal "Failed to delete account")
  return db'

/-! ## Background jobs -/

def TOMBSTONE_BATCH_SIZE : Nat := 200

def tombstoneCandidates (db : Db) (cutoff : Time) : List Item :=
  (db.items.select fun i => i.deletedAt.any (· < cutoff)).take TOMBSTONE_BATCH_SIZE

/-- One transaction of `cleanup_tombstones`. The candidates were read before (`seen`), and
are deleted whatever became of them. -/
def cleanupTombstones (seen db : Db) (cutoff : Time) : Except AppError Db := do
  let candidates := tombstoneCandidates seen cutoff
  let db ← candidates.foldlM (fun db i =>
    db.insertSyncEvent .itemPermanentlyDeleted i.id .item i.vaultId i.lastModifiedBy i.version none
      (some .tombstoneCleanup)) db
  let doomed := fun itemId => candidates.any fun i => i.id = itemId
  return { db with
    items := db.items.deleteWhere fun i => doomed i.id
    attachments := db.attachments.deleteWhere fun a => doomed a.itemId }

/-- `prune_sync_events`: the events up to a sequence number go. -/
def pruneSyncEvents (db : Db) (upTo : Nat) : Db :=
  { db with events := db.events.filter fun e => upTo < e.seq }

end Bittery
