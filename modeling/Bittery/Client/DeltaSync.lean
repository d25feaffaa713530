/-
The inbound half of sync: `delta-sync.ts`, with the part of the account's replica it
writes (`account-vault-replica.ts`, `item-cache.ts`).

An event is a hint. Processing it fetches from the server as it is now whatever the type of
the event calls for, and stores that. An error of the server other than a 404 on an item
ends the processing.

The replica is the one of an account without queued commands and without travel mode. Of
what it caches, the attachments of an item, the role in a vault and the account fields are
left out; an image is its object key.
-/
import Bittery.Server.Items
import Bittery.Server.Sync

namespace Bittery

open Lib

/-! ## The replica -/

/-- `VaultSummary`. -/
structure VaultSummary where
  id : String
  name : String
  type : VaultType
  icon : Option String
  imageKey : Option String
deriving DecidableEq, Repr

def Vault.summary (v : Vault) : VaultSummary := ⟨v.id, v.name, v.type, v.icon, v.imageKey⟩

/-- What a client holds of its account, by vault and by item; of each vault key the
wrapped keys the server listed for it. -/
@[ext] structure Replica where
  vaults : String → Option VaultSummary
  vaultKeys : String → List String
  items : String → Option Item

namespace Replica

variable (r : Replica)

/-- `upsertEncrypted`: a stored item wins only when its version is strictly newer. -/
def upsertItem (item : Item) : Replica :=
  if (r.items item.id).any fun stored => item.version < stored.version then r
  else { r with items := fun id => if id = item.id then some item else r.items id }

def upsertItems (items : List Item) : Replica := items.foldl upsertItem r

def removeItem (itemId : String) : Replica := { r with items := fun id => if id = itemId then none else r.items id }

def upsertVault (vault : VaultSummary) : Replica :=
  { r with vaults := fun id => if id = vault.id then some vault else r.vaults id }

/-- `removeCachedVault`: the vault, its key and the items filed under it. -/
def removeVault (vaultId : String) : Replica where
  vaults id := if id = vaultId then none else r.vaults id
  vaultKeys id := if id = vaultId then [] else r.vaultKeys id
  items id := (r.items id).filter fun item => item.vaultId ≠ vaultId

/-- `syncVaultKeys`: the keys are replaced, and a vault that is not there yet is added. -/
def syncVaultKeys (entries : List (VaultSummary × String)) : Replica where
  vaults id := (r.vaults id).or ((entries.find? fun e => e.1.id = id).map Prod.fst)
  vaultKeys id := (entries.filter fun e => e.1.id = id).map Prod.snd
  items := r.items

end Replica

/-! ## What the server answers -/

/-- `list_vaults`, all pages. -/
def listVaults (db : Db) (userId : String) : List (VaultSummary × String) :=
  (db.vaultKeys.select fun k => k.userId = userId).filterMap fun k =>
    (db.vaults.get? k.vaultId).map fun v => (v.summary, k.encryptedVaultKey)

/-- `get_vault`. -/
def getVault (db : Db) (userId vaultId : String) : Except AppError VaultSummary :=
  match db.vaults.get? vaultId with
  | some v =>
    if db.holdsKey userId vaultId then .ok v.summary else .error (.notFound "Vault not found or access denied")
  | none => .error (.notFound "Vault not found or access denied")

/-- What the server has for a user: the vaults the user holds a key of, those keys, and the
items filed under those vaults, in the trash or not. -/
def serverView (db : Db) (userId : String) : Replica where
  vaults id := (db.vaults.get? id).bind fun v => if db.holdsKey userId id then some v.summary else none
  vaultKeys id := (db.vaultKeys.select fun k => k.vaultId = id && k.userId = userId).map (·.encryptedVaultKey)
  items id := (db.items.get? id).filter fun item => db.holdsKey userId item.vaultId

/-! ## Processing an event -/

def SyncEvent.isBulkImport (e : SyncEvent) : Bool :=
  e.eventType = .vaultUpdated && e.metadata.any fun m => match m with
    | .bulkImport _ => true
    | _ => false

/-- The events that make a client fetch the vault keys first. -/
def SyncEvent.syncsVaultKeys (e : SyncEvent) : Bool :=
  match e.eventType with
  | .vaultCreated | .vaultDeleted | .vaultAccessRevoked | .vaultMemberAdded | .vaultMemberRemoved
  | .vaultKeyRotated => true
  | _ => e.isBulkImport

/-- `event.vaultId ?? event.entityId`. -/
def SyncEvent.targetVaultId (e : SyncEvent) : String := e.vaultId.getD e.entityId

def reconcileCurrentItem (db : Db) (userId itemId : String) (r : Replica) : Except AppError Replica :=
  match getVaultItem db userId itemId with
  | .ok item => .ok (r.upsertItem item)
  | .error e => if e.code = .notFound then .ok (r.removeItem itemId) else .error e

def refreshVaultItems (db : Db) (userId vaultId : String) (r : Replica) : Except AppError Replica :=
  (listVaultItems db userId vaultId).map r.upsertItems

/-- `performDeltaSync`, on a server that stays as it is meanwhile. -/
def performDeltaSync (db : Db) (userId : String) (r : Replica) (e : SyncEvent) : Except AppError Replica := do
  let r := if e.syncsVaultKeys then r.syncVaultKeys (listVaults db userId) else r
  match e.eventType with
  | .itemCreated | .itemUpdated | .itemRestored | .itemMoved | .itemDeleted =>
    reconcileCurrentItem db userId e.entityId r
  | .itemPermanentlyDeleted => return r.removeItem e.entityId
  | .vaultCreated | .vaultUpdated =>
    let r ← if e.isBulkImport then refreshVaultItems db userId e.targetVaultId r else pure r
    let vault ← getVault db userId e.entityId
    return r.upsertVault vault
  | .vaultMemberAdded | .vaultKeyRotated => refreshVaultItems db userId e.targetVaultId r
  | .vaultDeleted | .vaultAccessRevoked => return r.removeVault e.entityId
  | .vaultMemberRemoved | .travelModeUpdated => return r

end Bittery
