/-
The item cache of an account: `packages/storage/src/item-cache.ts`.

Every operation is an asynchronous program over the record port. An operation runs within the
lock of its account, so that one of them goes on at a time; a staged generation is written
without the lock. What a record parses to is a parameter, and so are the prefixes that a native
host reads the collections under. The cache is the one of one account.
-/
import Bittery.Client.AccountVaultReplica
import Bittery.Lib.Async
import Bittery.Lib.Table

namespace Bittery.ItemCache

open Lib

/-! ## Records -/

/-- The collections of an account. -/
inductive Collection
  | items
  | vaults
  | state
  | stagedItems (generation : String)
  | stagedVaults (generation : String)
  | stagedItemBaseline (generation : String)
  | stagedVaultBaseline (generation : String)
deriving DecidableEq, Repr

/-- What a collection is called. -/
def Collection.name (accountId : String) : Collection → String
  | .items => accountId ++ ":items"
  | .vaults => accountId ++ ":vaults"
  | .state => accountId ++ ":meta"
  | .stagedItems generation => "item-cache-stage:" ++ accountId ++ ":" ++ generation ++ ":items"
  | .stagedVaults generation => "item-cache-stage:" ++ accountId ++ ":" ++ generation ++ ":vaults"
  | .stagedItemBaseline generation => "item-cache-stage:" ++ accountId ++ ":" ++ generation ++ ":item-baseline"
  | .stagedVaultBaseline generation => "item-cache-stage:" ++ accountId ++ ":" ++ generation ++ ":vault-baseline"

structure StoredRecord (Text : Type) where
  id : String
  value : Text
deriving DecidableEq, Repr

/-- Records by their id: a collection, and a `Map` of ids to values. -/
abbrev Records (Text : Type) := Table (StoredRecord.id : StoredRecord Text → String)

/-- The value of an id. -/
def Records.value {Text : Type} (records : Records Text) (id : String) : Option Text :=
  (records.get? id).map (·.value)

structure CachedVaultMetadata where
  id : String
  /-- The rest of it, which the cache does not look at. -/
  summary : String
deriving DecidableEq, Repr

structure ItemCacheMetadata where
  lastFullSyncAt : Nat
  itemCount : Nat
  cacheVersion : Nat
  syncBaseline : Option (String × Option String)
deriving DecidableEq, Repr

structure ItemCacheNativeView where
  v : Nat
  itemsKeyPrefix : String
  vaultsKeyPrefix : String
deriving DecidableEq, Repr

structure ItemCacheStateDocument where
  v : Nat
  itemsPrimed : Bool
  vaultsPrimed : Bool
  metadata : Option ItemCacheMetadata
  activeGeneration : Option String
  nativeView : ItemCacheNativeView
deriving DecidableEq, Repr

/-- A state record as it is read: any field may be missing. -/
structure PartialState where
  v : Option Nat
  /-- Whether they are `true`. -/
  itemsPrimed : Bool
  vaultsPrimed : Bool
  metadata : Option ItemCacheMetadata
  /-- Nothing when it is not a string. -/
  activeGeneration : Option String
  nativeView : Option ItemCacheNativeView
deriving DecidableEq, Repr

def ItemCacheStateDocument.toPartial (state : ItemCacheStateDocument) : PartialState where
  v := some state.v
  itemsPrimed := state.itemsPrimed
  vaultsPrimed := state.vaultsPrimed
  metadata := state.metadata
  activeGeneration := state.activeGeneration
  nativeView := some state.nativeView

/-- How records are written and read: what is written can be read, a record that cannot is corrupt. -/
structure CacheFormat (Text : Type) where
  accountId : String
  recordKeyPrefix : String
  parseItem : Text → Option CachedEncryptedItem
  stringifyItem : CachedEncryptedItem → Text
  parseItem_stringifyItem : ∀ item, parseItem (stringifyItem item) = some item
  parseVault : Text → Option CachedVaultMetadata
  stringifyVault : CachedVaultMetadata → Text
  parseVault_stringifyVault : ∀ vault, parseVault (stringifyVault vault) = some vault
  parseState : Text → Option PartialState
  stringifyState : ItemCacheStateDocument → Text
  parseState_stringifyState : ∀ state, parseState (stringifyState state) = some state.toPartial

/-! ## The record port -/

inductive RecordCommand (Text : Type)
  | put (collection : Collection) (record : StoredRecord Text)
  | putMany (collection : Collection) (records : List (StoredRecord Text))
  | get (collection : Collection) (id : String)
  | delete (collection : Collection) (id : String)
  | list (collection : Collection)
  | clear (collection : Collection)
  /-- A generation is settled: its staging is no longer writable. -/
  | settle (generation : String)
  | isSettled (generation : String)

def RecordCommand.Response {Text : Type} : RecordCommand Text → Type
  | .get _ _ => Option Text
  | .list _ => List (StoredRecord Text)
  | .isSettled _ => Bool
  | _ => Unit

/-- What the port has stored, and which generations are settled. -/
structure RecordStore (Text : Type) where
  records : Collection → Records Text
  settled : String → Bool

namespace RecordStore

variable {Text : Type} (s : RecordStore Text)

def setRecords (collection : Collection) (records : Records Text) : RecordStore Text :=
  { s with records := Function.update s.records collection records }

def putMany (collection : Collection) (records : List (StoredRecord Text)) : RecordStore Text :=
  s.setRecords collection (records.foldl Table.put (s.records collection))

/-- A command that is answered. -/
def exec : (c : RecordCommand Text) → RecordStore Text × Option c.Response
  | .put collection record => (s.putMany collection [record], some ())
  | .putMany collection records => (s.putMany collection records, some ())
  | .get collection id => (s, some ((s.records collection).value id))
  | .delete collection id =>
    (s.setRecords collection ((s.records collection).deleteWhere fun r => r.id = id), some ())
  | .list collection => (s, some (s.records collection).rows)
  | .clear collection => (s.setRecords collection .empty, some ())
  | .settle generation => ({ s with settled := Function.update s.settled generation true }, some ())
  | .isSettled generation => (s, some (s.settled generation))

end RecordStore

abbrev CacheM (Text : Type) := Async (RecordCommand Text) RecordCommand.Response

variable {Text : Type}

def recordPut (collection : Collection) (id : String) (value : Text) : CacheM Text Unit :=
  Async.await (RecordCommand.put collection ⟨id, value⟩)

def recordPutMany (collection : Collection) (records : List (StoredRecord Text)) : CacheM Text Unit :=
  Async.await (RecordCommand.putMany collection records)

def recordGet (collection : Collection) (id : String) : CacheM Text (Option Text) :=
  Async.await (RecordCommand.get collection id)

def recordDelete (collection : Collection) (id : String) : CacheM Text Unit :=
  Async.await (RecordCommand.delete collection id)

def recordList (collection : Collection) : CacheM Text (List (StoredRecord Text)) :=
  Async.await (RecordCommand.list collection)

def recordClear (collection : Collection) : CacheM Text Unit := Async.await (RecordCommand.clear collection)

def settle (generation : String) : CacheM Text Unit := Async.await (RecordCommand.settle generation)

def isSettled (generation : String) : CacheM Text Bool := Async.await (RecordCommand.isSettled generation)

def assertPending (generation : String) : CacheM Text Unit := do
  if ← isSettled generation then Async.throw

/-- `Promise.all` of writes: each of them is made, also when another is rejected. -/
def promiseAll : List (CacheM Text Unit) → CacheM Text Unit
  | [] => return
  | p :: ps => do
    let failed ← Async.orElse (p.bind fun _ => return false) (return true)
    promiseAll ps
    if failed then Async.throw

/-! ## The state record -/

def META_RECORD_ID : String := "meta"

def ITEM_CACHE_STATE_VERSION : Nat := 2

def ITEM_CACHE_NATIVE_VIEW_VERSION : Nat := 1

def itemCollectionFor (generation : Option String) : Collection :=
  match generation with
  | none => .items
  | some generation => if generation = "" then .items else .stagedItems generation

def vaultCollectionFor (generation : Option String) : Collection :=
  match generation with
  | none => .vaults
  | some generation => if generation = "" then .vaults else .stagedVaults generation

section Operations

variable (F : CacheFormat Text)

def nativeViewFor (generation : Option String) : ItemCacheNativeView where
  v := ITEM_CACHE_NATIVE_VIEW_VERSION
  itemsKeyPrefix := F.recordKeyPrefix ++ (itemCollectionFor generation).name F.accountId ++ ":"
  vaultsKeyPrefix := F.recordKeyPrefix ++ (vaultCollectionFor generation).name F.accountId ++ ":"

def coldState : ItemCacheStateDocument where
  v := ITEM_CACHE_STATE_VERSION
  itemsPrimed := false
  vaultsPrimed := false
  metadata := none
  activeGeneration := none
  nativeView := nativeViewFor F none

/-- A state record that is corrupt, or of another version, is the one of a cold cache. -/
def parseState (raw : Option Text) : ItemCacheStateDocument :=
  match raw.bind F.parseState with
  | none => coldState F
  | some parsed =>
    if parsed.v ≠ some ITEM_CACHE_STATE_VERSION ∨
        parsed.nativeView.map (·.v) ≠ some ITEM_CACHE_NATIVE_VIEW_VERSION then coldState F
    else
      let state : ItemCacheStateDocument :=
        { v := ITEM_CACHE_STATE_VERSION
          itemsPrimed := parsed.itemsPrimed
          vaultsPrimed := parsed.vaultsPrimed
          metadata := parsed.metadata
          activeGeneration := parsed.activeGeneration
          nativeView := nativeViewFor F parsed.activeGeneration }
      if parsed.nativeView.map (·.itemsKeyPrefix) ≠ some state.nativeView.itemsKeyPrefix ∨
          parsed.nativeView.map (·.vaultsKeyPrefix) ≠ some state.nativeView.vaultsKeyPrefix then coldState F
      else state

def readState : CacheM Text ItemCacheStateDocument := do
  let raw ← recordGet .state META_RECORD_ID
  return parseState F raw

def writeState (state : ItemCacheStateDocument) : CacheM Text Unit :=
  recordPut .state META_RECORD_ID (F.stringifyState state)

/-- Which of the two is a full set. -/
inductive Primed
  | items
  | vaults
deriving DecidableEq, Repr

def prime (which : Primed) : CacheM Text Unit := do
  let state ← readState F
  match which with
  | .items => if state.itemsPrimed then return else writeState F { state with itemsPrimed := true }
  | .vaults => if state.vaultsPrimed then return else writeState F { state with vaultsPrimed := true }

/-! ## Collections -/

/-- Records that parse; when there are none at all, the flag decides. -/
def readCollection {α : Type} (parse : Text → Option α) (collection : Collection) (primed : Bool) :
    CacheM Text (Option (List α)) := do
  let records ← recordList collection
  if 0 < List.length records then return some (List.filterMap (fun r : StoredRecord Text => parse r.value) records)
  else return if primed then some [] else none

def replaceCollection (collection : Collection) (records : List (StoredRecord Text)) : CacheM Text Unit := do
  recordClear collection
  recordPutMany collection records

/-- `new Map` of the records of a collection: a later one takes the place of an earlier one. -/
def toMap (records : List (StoredRecord Text)) : Records Text := records.foldl Table.put .empty

def valuesOf (collection : Collection) : CacheM Text (Records Text) := do
  return toMap (← recordList collection)

/-- A stored record wins only when it is a readable item of a strictly newer version. -/
def storedIsNewer (existing : Option Text) (item : CachedEncryptedItem) : Bool :=
  (existing.bind F.parseItem).any fun parsed => item.version < parsed.version

def writeNewerItem (collection : Collection) (item : CachedEncryptedItem) : CacheM Text Bool := do
  if storedIsNewer F (← recordGet collection item.id) item then return false
  else
    recordPut collection item.id (F.stringifyItem item)
    return true

/-- What a batch accepts, after what it has accepted. -/
def acceptItem (stored accepted : Records Text) (item : CachedEncryptedItem) : Records Text :=
  if storedIsNewer F ((accepted.value item.id).or (stored.value item.id)) item then accepted
  else accepted.put ⟨item.id, F.stringifyItem item⟩

def writeNewerItems (collection : Collection) (items : List CachedEncryptedItem) : CacheM Text Unit := do
  if items = [] then return
  else
    let stored ← valuesOf collection
    recordPutMany collection (items.foldl (acceptItem F stored) .empty).rows

/-! ## The cache -/

def setCachedItems (items : List CachedEncryptedItem) : CacheM Text Unit := do
  let state ← readState F
  replaceCollection (itemCollectionFor state.activeGeneration) (items.map fun item => ⟨item.id, F.stringifyItem item⟩)
  prime F .items

def getCachedItems : CacheM Text (Option (List CachedEncryptedItem)) := do
  let state ← readState F
  readCollection F.parseItem (itemCollectionFor state.activeGeneration) state.itemsPrimed

def upsertCachedItem (item : CachedEncryptedItem) : CacheM Text Bool := do
  let state ← readState F
  writeNewerItem F (itemCollectionFor state.activeGeneration) item

def removeCachedItem (itemId : String) : CacheM Text Unit := do
  let state ← readState F
  recordDelete (itemCollectionFor state.activeGeneration) itemId

def setCachedVaults (vaults : List CachedVaultMetadata) : CacheM Text Unit := do
  let state ← readState F
  replaceCollection (vaultCollectionFor state.activeGeneration) (vaults.map fun vault => ⟨vault.id, F.stringifyVault vault⟩)
  prime F .vaults

def getCachedVaults : CacheM Text (Option (List CachedVaultMetadata)) := do
  let state ← readState F
  readCollection F.parseVault (vaultCollectionFor state.activeGeneration) state.vaultsPrimed

def upsertCachedVault (vault : CachedVaultMetadata) : CacheM Text Unit := do
  let state ← readState F
  recordPut (vaultCollectionFor state.activeGeneration) vault.id (F.stringifyVault vault)

def removeCachedVault (vaultId : String) : CacheM Text Unit := do
  let state ← readState F
  recordDelete (vaultCollectionFor state.activeGeneration) vaultId
  let collection := itemCollectionFor state.activeGeneration
  let records ← recordList collection
  List.forM records fun record : StoredRecord Text => do
    if (F.parseItem record.value).any (·.vaultId = vaultId) then recordDelete collection record.id

def getItemCacheMetadata : CacheM Text (Option ItemCacheMetadata) := do
  return (← readState F).metadata

def setItemCacheMetadata (metadata : ItemCacheMetadata) : CacheM Text Unit := do
  let state ← readState F
  writeState F { state with metadata := some metadata }

def clearItemCache : CacheM Text Unit := do
  let state ← readState F
  promiseAll
    [recordClear .items, recordClear .vaults, recordClear (itemCollectionFor state.activeGeneration),
      recordClear (vaultCollectionFor state.activeGeneration), recordClear .state]

/-! ## Staged generations -/

def beginStagedGeneration (generation : String) : CacheM Text Unit := do
  let state ← readState F
  let activeItems ← recordList (itemCollectionFor state.activeGeneration)
  let activeVaults ← recordList (vaultCollectionFor state.activeGeneration)
  promiseAll
    [recordClear (.stagedItems generation), recordClear (.stagedVaults generation),
      recordClear (.stagedItemBaseline generation), recordClear (.stagedVaultBaseline generation)]
  recordPutMany (.stagedItemBaseline generation) activeItems
  recordPutMany (.stagedVaultBaseline generation) activeVaults

def stageItem (generation : String) (item : CachedEncryptedItem) : CacheM Text Bool := do
  assertPending generation
  writeNewerItem F (.stagedItems generation) item

def stageItems (generation : String) (batch : List CachedEncryptedItem) : CacheM Text Unit := do
  assertPending generation
  writeNewerItems F (.stagedItems generation) batch

def stageVault (generation : String) (vault : CachedVaultMetadata) : CacheM Text Unit := do
  assertPending generation
  recordPut (.stagedVaults generation) vault.id (F.stringifyVault vault)

def stageVaults (generation : String) (batch : List CachedVaultMetadata) : CacheM Text Unit := do
  assertPending generation
  recordPutMany (.stagedVaults generation)
    (toMap (batch.map fun vault => ⟨vault.id, F.stringifyVault vault⟩)).rows

/-- What was deleted in the active generation is deleted in the staged one. -/
def deleteMissing (collection : Collection) (previous : Records Text) (baseline : List (StoredRecord Text)) :
    CacheM Text Unit :=
  baseline.forM fun record => do
    if (previous.value record.id).isNone then recordDelete collection record.id

/-- Whether a record of the active generation takes the place of the staged one. -/
def keepsActive (baseline staged : Option Text) (record : StoredRecord Text) [DecidableEq Text] : Bool :=
  (F.parseItem record.value).any fun activeItem =>
    baseline ≠ some record.value ∨
      (staged.bind F.parseItem).any fun stagedItem => stagedItem.version < activeItem.version

/-- The active records that are kept, and the staged values with them. -/
def keepItems [DecidableEq Text] (baseline : Records Text) (previous : List (StoredRecord Text)) (staged : Records Text) :
    List (StoredRecord Text) × Records Text :=
  previous.foldl
    (fun (kept, staged) record =>
      if keepsActive F (baseline.value record.id) (staged.value record.id) record then (kept ++ [record], staged.put record)
      else (kept, staged))
    ([], staged)

/-- The records that are left after those in a deleted vault are gone. -/
def dropOfVaults (collection : Collection) (deletedVaultIds : List String) (staged : Records Text) : CacheM Text Unit :=
  staged.rows.forM fun record => do
    if (F.parseItem record.value).any (·.vaultId ∈ deletedVaultIds) then recordDelete collection record.id

/-- `promote` once it has the lock. -/
def promoteLocked [DecidableEq Text] (generation : String) (lastFullSyncAt cacheVersion : Nat)
    (syncBaseline : Option (String × Option String)) : CacheM Text Unit := do
  let previous ← readState F
  let previousItems := itemCollectionFor previous.activeGeneration
  let previousVaults := vaultCollectionFor previous.activeGeneration
  let itemBaselineValues ← valuesOf (.stagedItemBaseline generation)
  let previousItemRecords ← recordList previousItems
  let stagedItemValues ← valuesOf (.stagedItems generation)
  let previousItemValues := toMap previousItemRecords
  deleteMissing (.stagedItems generation) previousItemValues itemBaselineValues.rows
  let stagedItemValues := Table.deleteWhere stagedItemValues fun r =>
    (itemBaselineValues.value r.id).isSome && (previousItemValues.value r.id).isNone
  let (keptItems, stagedItemValues) := keepItems F itemBaselineValues previousItemRecords stagedItemValues
  recordPutMany (.stagedItems generation) keptItems
  let vaultBaselineValues ← valuesOf (.stagedVaultBaseline generation)
  let previousVaultRecords ← recordList previousVaults
  let previousVaultValues := toMap previousVaultRecords
  let deletedVaultIds :=
    (List.map StoredRecord.id (Table.rows vaultBaselineValues)).filter fun id => (previousVaultValues.value id).isNone
  deleteMissing (.stagedVaults generation) previousVaultValues vaultBaselineValues.rows
  dropOfVaults F (.stagedItems generation) deletedVaultIds stagedItemValues
  let stagedItemValues := Table.deleteWhere stagedItemValues fun r =>
    (F.parseItem r.value).any (·.vaultId ∈ deletedVaultIds)
  recordPutMany (.stagedVaults generation)
    (List.filter (fun r : StoredRecord Text => vaultBaselineValues.value r.id ≠ some r.value) previousVaultRecords)
  writeState F
    { v := ITEM_CACHE_STATE_VERSION
      itemsPrimed := true
      vaultsPrimed := true
      metadata := some ⟨lastFullSyncAt, stagedItemValues.rows.length, cacheVersion, syncBaseline⟩
      activeGeneration := some generation
      nativeView := nativeViewFor F (some generation) }
  settle generation
  if previous.activeGeneration ≠ none then
    promiseAll [recordClear previousItems, recordClear previousVaults]
  promiseAll [recordClear (.stagedItemBaseline generation), recordClear (.stagedVaultBaseline generation)]

def promote [DecidableEq Text] (generation : String) (lastFullSyncAt cacheVersion : Nat)
    (syncBaseline : Option (String × Option String)) : CacheM Text Unit := do
  assertPending generation
  promoteLocked F generation lastFullSyncAt cacheVersion syncBaseline

def discard (generation : String) : CacheM Text Unit := do
  if ← isSettled generation then return
  else
    settle generation
    promiseAll
      [recordClear (.stagedItems generation), recordClear (.stagedVaults generation),
        recordClear (.stagedItemBaseline generation), recordClear (.stagedVaultBaseline generation)]

end Operations

end Bittery.ItemCache
