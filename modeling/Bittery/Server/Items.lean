/-
Item requests: `domains/vaults/access.rs` and `domains/vaults/items.rs`.

A request reads the item row and the caller's access from the pool and only then opens
its transaction, at READ COMMITTED. So a request is a function of three databases: `seen`,
where it read the row; `acl`, where it read the access; and `db`, where its transaction
commits. `seen` and `acl` are earlier states, which other requests may have changed since.
The row itself is guarded by its version: the writing statement names the version the
client sent in `If-Match`.

The six requests on an existing item are one scheme, `ItemMutation`, applied to the checks,
the writing statement and the event of each.
-/
import Bittery.Server.Db

namespace Bittery

open Lib

/-! ## Access -/

/-- `load_vault_access`: the role of the first key found. -/
def loadVaultAccess (db : Db) (vaultId userId : String) : Except AppError VaultRole :=
  match db.vaultKeys.rows.find? fun k => k.vaultId = vaultId && k.userId = userId with
  | some k => .ok k.role
  | none => .error (.forbidden "Access denied to this vault")

def assertItemReadAccess (db : Db) (vaultId userId : String) : Except AppError Unit :=
  if db.holdsKey userId vaultId then .ok () else .error (.forbidden "Access denied")

def assertItemWriteAccess (role : VaultRole) (message : String) : Except AppError Unit :=
  if role.canWrite then .ok () else .error (.forbidden message)

def loadItemRow (db : Db) (itemId : String) : Except AppError Item :=
  match db.items.get? itemId with
  | some row => .ok row
  | none => .error (.notFound "Item not found")

/-- Access to a vault and the right to write in it, as every mutation asks for them. -/
def requireWrite (acl : Db) (userId : String) (vaultId message : String) : Except AppError Unit := do
  let role ← loadVaultAccess acl vaultId userId
  assertItemWriteAccess role message

/-! ## Reading -/

/-- `get_vault_item`; trashed items are returned too. -/
def getVaultItem (db : Db) (userId itemId : String) : Except AppError Item := do
  let row ← loadItemRow db itemId
  assertItemReadAccess db row.vaultId userId
  return row

/-- All pages of `list_vault_items_page`: the items of a vault that are not in the trash. -/
def listVaultItems (db : Db) (userId vaultId : String) : Except AppError (List Item) := do
  let _ ← loadVaultAccess db vaultId userId
  return db.items.select fun i => i.vaultId = vaultId && i.deletedAt.isNone

/-! ## Creating -/

structure CreateItemInput where
  itemId : String
  vaultId : String
  category : ItemCategory
  encryptedData : String
  encryptionIv : String
  encryptionAlgorithm : String
  clientId : Option String
deriving DecidableEq, Repr

/-- The row both creating requests insert: version 1, sealed by the caller. -/
def newItem (userId vaultId : String) (favorite : Bool) (input : CreateItemInput) : Item :=
  { id := input.itemId, vaultId := vaultId, category := input.category, favorite := favorite,
    encryptedData := input.encryptedData, encryptionIv := input.encryptionIv,
    encryptionAlgorithm := input.encryptionAlgorithm, version := 1, encryptionVersion := 1,
    encryptedByUserId := userId, lastModifiedBy := userId, deletedAt := none }

/-- `INSERT INTO item`: the key has to be free and the vault has to exist. -/
def insertItem (db : Db) (row : Item) (context : String) : Except AppError Db :=
  if db.hasVault row.vaultId then
    match db.items.insert row with
    | some items => .ok { db with items := items }
    | none => .error (.internal context)
  else .error (.internal context)

def createVaultItem (acl db : Db) (userId : String) (input : CreateItemInput) : Except AppError Db := do
  requireWrite acl userId input.vaultId "Read-only access cannot create items"
  let db ← insertItem db (newItem userId input.vaultId false input) "Failed to create item"
  db.insertSyncEvent .itemCreated input.itemId .item input.vaultId userId 1 input.clientId none

structure BulkImportItem where
  item : CreateItemInput
  favorite : Option Bool
deriving DecidableEq, Repr

structure BulkImportItemsInput where
  vaultId : String
  clientId : Option String
  items : List BulkImportItem
deriving DecidableEq, Repr

/-- `bulk_import_vault_items`; the items carry no vault of their own. -/
def bulkImportVaultItems (acl db : Db) (userId : String) (input : BulkImportItemsInput) : Except AppError Db := do
  requireWrite acl userId input.vaultId "Read-only access cannot create items"
  if input.items.isEmpty then return db
  if 200 < input.items.length then throw (.badRequest "Cannot import more than 200 items at once")
  if ¬ (input.items.map fun i => i.item.itemId).Nodup then
    throw (.badRequest "Duplicate item IDs in import payload")
  let db ← input.items.foldlM (fun db i =>
    insertItem db (newItem userId input.vaultId (i.favorite.getD false) i.item) "Failed to import vault items") db
  db.insertSyncEvent .vaultUpdated input.vaultId .vault input.vaultId userId 1 input.clientId
    (some (.bulkImport input.items.length))

/-! ## Changing an existing item -/

/-- What one request does with the row it names. -/
structure ItemMutation where
  itemId : String
  expectedVersion : Option Nat
  clientId : Option String
  /-- Checks on the row as it was read, before any access check. -/
  precheck : Item → Except AppError Unit
  /-- The vaults that have to be writable, with the message when one is read-only. -/
  writable : Item → List (String × String)
  /-- The row the statement leaves; `none` deletes it. -/
  write : Item → Option Item
  eventType : SyncEventType
  /-- The vault of the event, from the row as it was read. -/
  eventVault : Item → String
  metadata : Option EventMetadata

def itemVersionConflict : AppError := .conflict "Item has been modified by another client"

/-- The writing statement on the one row: replaced, or deleted together with its attachments. -/
def writeRow (db : Db) (row : Item) : Option Item → Db
  | some row' => { db with items := db.items.updateWhere (fun r => r.id = row.id) (fun r => { row' with id := r.id }) }
  | none =>
    { db with
      items := db.items.deleteWhere fun r => r.id = row.id
      attachments := db.attachments.deleteWhere fun a => a.itemId = row.id }

/-- The scheme of the six requests: read, check, write under the version, record the event. -/
def ItemMutation.run (m : ItemMutation) (seen acl db : Db) (userId : String) : Except AppError (Db × Nat) := do
  let existing ← loadItemRow seen m.itemId
  m.precheck existing
  (m.writable existing).forM fun v => requireWrite acl userId v.1 v.2
  let expectedVersion := m.expectedVersion.getD existing.version
  match db.items.get? m.itemId with
  | none => throw itemVersionConflict
  | some row =>
    if row.version ≠ expectedVersion then throw itemVersionConflict
    -- The foreign key of a row that changes its vault.
    if ¬ (m.write row).all fun row' => row'.vaultId = row.vaultId || db.hasVault row'.vaultId then
      throw (.internal "Failed to move item")
    let newVersion := row.version + 1
    let db ← (writeRow db row (m.write row)).insertSyncEvent m.eventType m.itemId .item (m.eventVault existing)
      userId newVersion m.clientId m.metadata
    return (db, newVersion)

structure UpdateItemInput where
  itemId : String
  encryptedData : Option String
  encryptionIv : Option String
  encryptionAlgorithm : Option String
  expectedVersion : Option Nat
  clientId : Option String
deriving DecidableEq, Repr

def updateVaultItem (userId : String) (input : UpdateItemInput) : ItemMutation where
  itemId := input.itemId
  expectedVersion := input.expectedVersion
  clientId := input.clientId
  precheck _ := .ok ()
  writable existing := [(existing.vaultId, "Access denied")]
  write row :=
    let updatesCiphertext := input.encryptedData.isSome || input.encryptionIv.isSome || input.encryptionAlgorithm.isSome
    some { row with
      encryptedData := input.encryptedData.getD row.encryptedData
      encryptionIv := input.encryptionIv.getD row.encryptionIv
      encryptionAlgorithm := input.encryptionAlgorithm.getD row.encryptionAlgorithm
      version := row.version + 1
      encryptionVersion := if updatesCiphertext then row.version + 1 else row.encryptionVersion
      encryptedByUserId := if updatesCiphertext then userId else row.encryptedByUserId
      lastModifiedBy := userId }
  eventType := .itemUpdated
  eventVault existing := existing.vaultId
  metadata := none

/-- An item named with the version the client holds. -/
structure ItemClientInput where
  itemId : String
  expectedVersion : Option Nat
  clientId : Option String
deriving DecidableEq, Repr

/-- `last_modified_by` keeps its value. -/
def toggleVaultFavorite (favorite : Bool) (input : ItemClientInput) : ItemMutation where
  itemId := input.itemId
  expectedVersion := input.expectedVersion
  clientId := input.clientId
  precheck _ := .ok ()
  writable existing := [(existing.vaultId, "Access denied")]
  write row := some { row with favorite := favorite, version := row.version + 1 }
  eventType := .itemUpdated
  eventVault existing := existing.vaultId
  metadata := none

/-- Moves the item to the trash; one that is there already gets a new deletion time. -/
def deleteVaultItem (userId : String) (now : Time) (input : ItemClientInput) : ItemMutation where
  itemId := input.itemId
  expectedVersion := input.expectedVersion
  clientId := input.clientId
  precheck _ := .ok ()
  writable existing := [(existing.vaultId, "Access denied")]
  write row := some { row with deletedAt := some now, version := row.version + 1, lastModifiedBy := userId }
  eventType := .itemDeleted
  eventVault existing := existing.vaultId
  metadata := none

def restoreVaultItem (userId : String) (input : ItemClientInput) : ItemMutation where
  itemId := input.itemId
  expectedVersion := input.expectedVersion
  clientId := input.clientId
  precheck existing := if existing.deletedAt.isNone then .error (.badRequest "Item is not deleted") else .ok ()
  writable existing := [(existing.vaultId, "Access denied")]
  write row := some { row with deletedAt := none, version := row.version + 1, lastModifiedBy := userId }
  eventType := .itemRestored
  eventVault existing := existing.vaultId
  metadata := none

structure MoveItemInput where
  itemId : String
  sourceVaultId : String
  targetVaultId : String
  encryptedData : String
  encryptionIv : String
  encryptionAlgorithm : String
  expectedVersion : Option Nat
  clientId : Option String
deriving DecidableEq, Repr

/-- The event is recorded in the target vault alone; the source is in its metadata. -/
def moveVaultItem (userId : String) (input : MoveItemInput) : ItemMutation where
  itemId := input.itemId
  expectedVersion := input.expectedVersion
  clientId := input.clientId
  precheck existing :=
    if existing.vaultId ≠ input.sourceVaultId then .error (.badRequest "Item does not belong to the source vault")
    else if existing.deletedAt.isSome then
      .error (.badRequest "Cannot move items that are in trash. Restore first.")
    else .ok ()
  writable _ :=
    [(input.sourceVaultId, "Cannot move items from a read-only vault"),
     (input.targetVaultId, "Cannot move items to a read-only vault")]
  write row := some { row with
    vaultId := input.targetVaultId
    encryptedData := input.encryptedData
    encryptionIv := input.encryptionIv
    encryptionAlgorithm := input.encryptionAlgorithm
    version := row.version + 1
    encryptionVersion := row.version + 1
    encryptedByUserId := userId
    lastModifiedBy := userId }
  eventType := .itemMoved
  eventVault _ := input.targetVaultId
  metadata := some (.moved input.sourceVaultId)

def permanentlyDeleteVaultItem (input : ItemClientInput) : ItemMutation where
  itemId := input.itemId
  expectedVersion := input.expectedVersion
  clientId := input.clientId
  precheck existing :=
    if existing.deletedAt.isNone then .error (.badRequest "Can only permanently delete items in trash") else .ok ()
  writable existing := [(existing.vaultId, "Access denied")]
  write _ := none
  eventType := .itemPermanentlyDeleted
  eventVault existing := existing.vaultId
  metadata := none

/-! ## The requests as one type -/

/-- The item mutations a client can send. -/
inductive ItemRequest
  | create (input : CreateItemInput)
  | bulkImport (input : BulkImportItemsInput)
  | update (input : UpdateItemInput)
  | favorite (favorite : Bool) (input : ItemClientInput)
  | delete (now : Time) (input : ItemClientInput)
  | restore (input : ItemClientInput)
  | move (input : MoveItemInput)
  | permanentDelete (input : ItemClientInput)
deriving DecidableEq, Repr

/-- The scheme instance of a request on an existing item. -/
def ItemRequest.mutation (userId : String) : ItemRequest → Option ItemMutation
  | .create _ | .bulkImport _ => none
  | .update input => some (updateVaultItem userId input)
  | .favorite value input => some (toggleVaultFavorite value input)
  | .delete now input => some (deleteVaultItem userId now input)
  | .restore input => some (restoreVaultItem userId input)
  | .move input => some (moveVaultItem userId input)
  | .permanentDelete input => some (permanentlyDeleteVaultItem input)

/-- The database a request of `userId` leaves when it is accepted. -/
def ItemRequest.run (r : ItemRequest) (seen acl db : Db) (userId : String) : Except AppError Db :=
  match r with
  | .create input => createVaultItem acl db userId input
  | .bulkImport input => bulkImportVaultItems acl db userId input
  | r =>
    match r.mutation userId with
    | some m => (m.run seen acl db userId).map Prod.fst
    | none => .ok db

end Bittery
