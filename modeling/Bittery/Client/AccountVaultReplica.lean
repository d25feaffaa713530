/-
The replica of one account on a device (`account-vault-replica.ts`): the cached records of the
items in memory and in the item cache (`item-cache.ts`), the commands that are pending for
them, and what is displayed.

A method runs in one step up to its next `await`, so the state holds, beside the fields of the
class, the calls that are waiting, each with what it goes on with. What the cache does to one
record is one step (`withAccountLock`). The account is unlocked; vaults, travel mode, the
account scope and attachments of a record, and calls for another account are left out. What a
record decrypts to is the parameter `plaintext`: nothing when the decryption throws.
-/
import Mathlib.Data.List.Sort
import Mathlib.Logic.Function.Basic
import Bittery.Client.Commands
import Bittery.Lib.Runs

namespace Bittery

open Lib

/-! ## Records -/

structure CachedEncryptedItem where
  id : String
  vaultId : String
  category : ItemCategory
  favorite : Bool
  encryptedData : String
  encryptionIv : String
  encryptionAlgorithm : String
  version : Nat
  lastModifiedBy : String
  encryptionVersion : Nat
  encryptedByUserId : String
  createdAt : Nat
  updatedAt : Nat
  deletedAt : Option Nat
deriving DecidableEq, Repr

/-- A record with what it decrypts to. -/
structure VaultRepositoryItem extends CachedEncryptedItem where
  data : String
deriving DecidableEq, Repr

def toNewCachedItem (id vaultId : String) (category : ItemCategory) (timestamp version : Nat)
    (payload : ItemSyncEncryptedPayload) : CachedEncryptedItem where
  id := id
  vaultId := vaultId
  category := category
  favorite := false
  encryptedData := payload.encryptedData
  encryptionIv := payload.encryptionIv
  encryptionAlgorithm := payload.encryptionAlgorithm
  version := version
  lastModifiedBy := payload.encryptedByUserId
  encryptionVersion := payload.encryptionVersion
  encryptedByUserId := payload.encryptedByUserId
  createdAt := timestamp
  updatedAt := timestamp
  deletedAt := none

def CachedEncryptedItem.withEncryptedPayload (base : CachedEncryptedItem) (payload : ItemSyncEncryptedPayload)
    (vaultId : String) (version updatedAt : Nat) : CachedEncryptedItem :=
  { base with
    vaultId := vaultId
    encryptedData := payload.encryptedData
    encryptionIv := payload.encryptionIv
    encryptionAlgorithm := payload.encryptionAlgorithm
    version := version
    lastModifiedBy := payload.encryptedByUserId
    encryptionVersion := payload.encryptionVersion
    encryptedByUserId := payload.encryptedByUserId
    updatedAt := updatedAt }

/-- What a pending command makes of the record it applies to. -/
def applyCommandToCachedItem (base : Option CachedEncryptedItem) (command : ItemSyncCommand) :
    Except String (Option CachedEncryptedItem) :=
  match command.type, base with
  | .permanentDelete, base => .ok base
  | .create, _ =>
    match command.encryptedPayload, command.category with
    | some payload, some category =>
      .ok (some (toNewCachedItem command.entityId command.vaultId category command.timestamp
        payload.encryptionVersion payload))
    | _, _ => .error ("Missing create projection data for " ++ command.entityId)
  | _, none => .ok none
  | .crossAccountMove, some base => .ok (some base)
  | .update, some base =>
    match command.encryptedPayload with
    | some payload =>
      .ok (some (base.withEncryptedPayload payload base.vaultId payload.encryptionVersion command.timestamp))
    | none => .error "Missing update projection data"
  | .move, some base =>
    match command.encryptedPayload with
    | some payload =>
      .ok (some (base.withEncryptedPayload payload (command.targetVaultId.getD base.vaultId)
        payload.encryptionVersion command.timestamp))
    | none => .error "Missing move projection data"
  | .delete, some base => .ok (some { base with deletedAt := some command.timestamp, updatedAt := command.timestamp })
  | .restore, some base => .ok (some { base with deletedAt := none, updatedAt := command.timestamp })
  | .toggleFavorite, some base =>
    .ok (some { base with favorite := command.favorite.getD false, updatedAt := command.timestamp })

/-- The record a reader gets from the cache wins only when its version is strictly newer. -/
def storedIsNewer (existing : Option CachedEncryptedItem) (item : CachedEncryptedItem) : Bool :=
  existing.any fun stored => item.version < stored.version

/-- The records of an account by id. -/
abbrev CachedItems := String → Option CachedEncryptedItem

/-- What a collection becomes, and whether the record was put into it. -/
def writeNewerItem (collection : CachedItems) (item : CachedEncryptedItem) : CachedItems × Bool :=
  if storedIsNewer (collection item.id) item then (collection, false)
  else (Function.update collection item.id (some item), true)

/-- The records of all pages, written to a new collection as they come. -/
def stageItems (pageItems : List CachedEncryptedItem) : CachedItems :=
  pageItems.foldl (fun collection item => (writeNewerItem collection item).1) fun _ => none

/-- `promote` of a staged generation, for one record: what was removed meanwhile stays removed,
what was written meanwhile or is newer than the staged record is kept. -/
def promoteItem (baseline active staged : Option CachedEncryptedItem) : Option CachedEncryptedItem :=
  match active with
  | none => if baseline.isSome then none else staged
  | some item =>
    if baseline ≠ active || staged.any fun stagedItem => stagedItem.version < item.version then active else staged

/-! ## The state -/

/-- A call that is waiting, and what for. -/
inductive ReplicaCall
  /-- `upsertEncrypted`: the cache is written, the memory not yet. -/
  | upserting (item : CachedEncryptedItem)
  /-- `acknowledgeItemCommand`: the memory is written, the cache not yet. -/
  | acknowledging (item : CachedEncryptedItem)
  /-- A removal: the memory is written, the cache not yet. -/
  | removing (itemId : String)
  /-- `preserveItemConflict`: the displayed item is being encrypted. -/
  | preserving (command : ItemSyncCommand) (item : VaultRepositoryItem)
  /-- `rebuildItemProjection`: the projected record is being decrypted. -/
  | rebuilding (itemId : String) (projected : CachedEncryptedItem) (generation : Nat)
deriving DecidableEq, Repr

/-- What a call waits for may throw. A decryption that throws is part of the rebuild. -/
def ReplicaCall.rejects : ReplicaCall → Bool
  | .acknowledging _ | .removing _ | .preserving .. => true
  | .upserting _ | .rebuilding .. => false

/-- The item that a call has changed in memory and is going to write to the cache and rebuild. -/
def ReplicaCall.settles : ReplicaCall → Option String
  | .acknowledging item => some item.id
  | .removing itemId => some itemId
  | .upserting _ | .preserving .. | .rebuilding .. => none

/-- The hydration on its way. There is one at a time (`runHydration`). -/
inductive Hydration
  | none
  /-- `hydrate`: the cache is about to be read. -/
  | reading (generation : Nat)
  /-- `hydrateFromServer`: the cache is about to be copied as the baseline. -/
  | staging (generation : Nat) (conflictBases : List CachedEncryptedItem)
  /-- The pages are being fetched and staged. -/
  | fetching (generation : Nat) (conflictBases : List CachedEncryptedItem) (baseline : CachedItems)
  /-- They have been promoted, and the cache is about to be read. -/
  | promoted (generation : Nat) (conflictBases : List CachedEncryptedItem)
  /-- The conflict bases that are gone are being written back. -/
  | restoring (generation : Nat) (cachedItems : CachedItems) (missing : List CachedEncryptedItem)
  /-- Either: what was read is being decrypted. -/
  | decrypting (isLocal : Bool) (generation : Nat) (cachedItems : CachedItems)
  /-- Either: the maps are replaced, one item is being rebuilt, others are to follow. -/
  | projecting (isLocal : Bool) (generation : Nat) (awaited : Nat) (itemIds : List String)

structure AccountVaultReplica where
  /-- The item cache, which outlives the object. -/
  itemCache : CachedItems
  authoritativeItems : CachedItems
  /-- The values of the map by operation id, in its order. -/
  pendingCommands : List ItemSyncCommand
  items : String → Option VaultRepositoryItem
  hydrating : Bool
  hydrated : Bool
  hydrationGeneration : Nat
  calls : Nat → Option ReplicaCall
  hydration : Hydration
  /-- A record: the number of the next wait. -/
  next : Nat
  /-- A record: the number of the rebuild of an item that was started last. -/
  latestRebuild : String → Nat

/-- What happens next: a method is called, a call goes on, or what it waits for throws. -/
inductive ReplicaLabel
  | applyItemCommand (command : ItemSyncCommand)
  | acknowledgeItemCommand (command : ItemSyncCommand) (entityId : String) (version : Option Nat)
  | preserveItemConflict (command : ItemSyncCommand)
  /-- `upsertEncrypted` up to the end of `persistItem`. -/
  | upsertEncrypted (item : CachedEncryptedItem)
  | removeCachedItem (itemId : String)
  | resume (n : Nat)
  | reject (n : Nat)
  | hydrate
  | hydrateFromServer
  /-- The last page is there, and the records of all of them are promoted. -/
  | promote (pageItems : List CachedEncryptedItem)
  | resumeHydration
  | rejectHydration

namespace AccountVaultReplica

variable (plaintext : CachedEncryptedItem → Option String) (s : AccountVaultReplica)

def decryptItem (item : CachedEncryptedItem) : Option VaultRepositoryItem :=
  (plaintext item).map fun data => { item with data }

/-! ## Pending commands and the projection -/

/-- `pendingCommands.set`: a key that is there keeps its place. -/
def setCommand (command : ItemSyncCommand) : AccountVaultReplica :=
  { s with pendingCommands :=
      if s.pendingCommands.any fun c => c.operation = command.operation then
        s.pendingCommands.map fun c => if c.operation = command.operation then command else c
      else s.pendingCommands ++ [command] }

def deleteCommand (command : ItemSyncCommand) : AccountVaultReplica :=
  { s with pendingCommands := s.pendingCommands.filter fun c => c.operation ≠ command.operation }

def commandsForItem (itemId : String) : List ItemSyncCommand :=
  (s.pendingCommands.filter fun c => c.entityId = itemId).insertionSort fun a b => a.timestamp ≤ b.timestamp

def hasPendingEncryptedCommand (itemId : String) : Bool :=
  (s.commandsForItem itemId).any fun c =>
    c.type = .create || c.type = .update || c.type = .move || c.type = .crossAccountMove

/-- The pending commands of an item applied to its record, in the order of their timestamps. -/
def project (itemId : String) : Except String (Option CachedEncryptedItem) :=
  (s.commandsForItem itemId).foldlM applyCommandToCachedItem (s.authoritativeItems itemId)

/-! ## Steps -/

/-- Call `n` waits no longer. -/
def release (n : Nat) : AccountVaultReplica := { s with calls := Function.update s.calls n none }

/-- A call starts to wait. -/
def await (call : ReplicaCall) : AccountVaultReplica :=
  { s with calls := Function.update s.calls s.next (some call), next := s.next + 1 }

variable {s} in
@[simp] theorem release_calls_self {n : Nat} : (s.release n).calls n = none := Function.update_self ..

variable {s} in
theorem release_calls_of_ne {m n : Nat} (h : m ≠ n) : (s.release n).calls m = s.calls m := Function.update_of_ne h ..

variable {s} in
theorem calls_of_release {m n : Nat} {call : ReplicaCall} (h : (s.release n).calls m = some call) :
    m ≠ n ∧ s.calls m = some call := by
  by_cases hmn : m = n
  · rw [hmn, release_calls_self] at h; cases h
  · exact ⟨hmn, release_calls_of_ne hmn ▸ h⟩

variable {s} in
@[simp] theorem await_calls_next {call : ReplicaCall} : (s.await call).calls s.next = some call :=
  Function.update_self ..

variable {s} in
theorem await_calls_of_ne {n : Nat} {call : ReplicaCall} (h : n ≠ s.next) : (s.await call).calls n = s.calls n :=
  Function.update_of_ne h ..

def setItem (itemId : String) (item : Option VaultRepositoryItem) : AccountVaultReplica :=
  { s with items := Function.update s.items itemId item }

def setAuthoritative (itemId : String) (item : Option CachedEncryptedItem) : AccountVaultReplica :=
  { s with authoritativeItems := Function.update s.authoritativeItems itemId item }

def setCached (itemId : String) (item : Option CachedEncryptedItem) : AccountVaultReplica :=
  { s with itemCache := Function.update s.itemCache itemId item }

/-- `persistItem`, with its answer. -/
def persistItem (item : CachedEncryptedItem) : AccountVaultReplica × Bool :=
  ({ s with itemCache := (writeNewerItem s.itemCache item).1 }, (writeNewerItem s.itemCache item).2)

/-- `rebuildItemProjection` up to its first wait. When the fold throws, so does the call. -/
def rebuildItemProjection (itemId : String) : AccountVaultReplica :=
  match s.project itemId with
  | .error _ => s
  | .ok none =>
    { s.setItem itemId none with next := s.next + 1, latestRebuild := Function.update s.latestRebuild itemId s.next }
  | .ok (some projected) =>
    { s.await (.rebuilding itemId projected s.hydrationGeneration) with
      latestRebuild := Function.update s.latestRebuild itemId s.next }

section rebuild

variable {s} {itemId : String}

@[simp] theorem rebuild_itemCache : (s.rebuildItemProjection itemId).itemCache = s.itemCache := by
  unfold rebuildItemProjection; split <;> rfl

@[simp] theorem rebuild_authoritativeItems :
    (s.rebuildItemProjection itemId).authoritativeItems = s.authoritativeItems := by
  unfold rebuildItemProjection; split <;> rfl

@[simp] theorem rebuild_pendingCommands : (s.rebuildItemProjection itemId).pendingCommands = s.pendingCommands := by
  unfold rebuildItemProjection; split <;> rfl

@[simp] theorem rebuild_hydration : (s.rebuildItemProjection itemId).hydration = s.hydration := by
  unfold rebuildItemProjection; split <;> rfl

@[simp] theorem rebuild_hydrated : (s.rebuildItemProjection itemId).hydrated = s.hydrated := by
  unfold rebuildItemProjection; split <;> rfl

@[simp] theorem rebuild_hydrationGeneration :
    (s.rebuildItemProjection itemId).hydrationGeneration = s.hydrationGeneration := by
  unfold rebuildItemProjection; split <;> rfl

theorem rebuild_calls_of_ne {n : Nat} (h : n ≠ s.next) : (s.rebuildItemProjection itemId).calls n = s.calls n := by
  unfold rebuildItemProjection
  split
  · rfl
  · rfl
  · exact await_calls_of_ne h

theorem rebuild_items_of_ne {id : String} (h : id ≠ itemId) : (s.rebuildItemProjection itemId).items id = s.items id := by
  unfold rebuildItemProjection
  split
  · rfl
  · exact Function.update_of_ne h ..
  · rfl

theorem rebuild_next {projected : Option CachedEncryptedItem} (h : s.project itemId = .ok projected) :
    (s.rebuildItemProjection itemId).next = s.next + 1 := by
  unfold rebuildItemProjection; rw [h]; cases projected <;> rfl

theorem rebuild_latestRebuild {projected : Option CachedEncryptedItem} (h : s.project itemId = .ok projected) :
    (s.rebuildItemProjection itemId).latestRebuild = Function.update s.latestRebuild itemId s.next := by
  unfold rebuildItemProjection; rw [h]; cases projected <;> rfl

theorem rebuild_items_self (h : s.project itemId = .ok none) : (s.rebuildItemProjection itemId).items itemId = none := by
  unfold rebuildItemProjection; rw [h]; exact Function.update_self ..

theorem rebuild_calls_none (h : s.project itemId = .ok none) : (s.rebuildItemProjection itemId).calls = s.calls := by
  unfold rebuildItemProjection; rw [h]; rfl

theorem rebuild_calls_next {projected : CachedEncryptedItem} (h : s.project itemId = .ok (some projected)) :
    (s.rebuildItemProjection itemId).calls s.next = some (.rebuilding itemId projected s.hydrationGeneration) := by
  unfold rebuildItemProjection; rw [h]; exact await_calls_next

end rebuild

/-- No call has a number that is still to be given. -/
def Fresh : Prop := ∀ n, s.next ≤ n → s.calls n = none

namespace Fresh

variable {s}

theorem next (h : s.Fresh) : s.calls s.next = none := h s.next (Nat.le_refl _)

theorem ne_next (h : s.Fresh) {n : Nat} {call : ReplicaCall} (hc : s.calls n = some call) : n ≠ s.next := by
  intro hn
  rw [hn, h.next] at hc; cases hc

theorem await (h : s.Fresh) (call : ReplicaCall) : (s.await call).Fresh := by
  intro n hn
  have hn : s.next + 1 ≤ n := hn
  rw [await_calls_of_ne (by omega)]
  exact h n (by omega)

theorem release (h : s.Fresh) (n : Nat) : (s.release n).Fresh := by
  intro m hm
  by_cases hmn : m = n
  · rw [hmn, release_calls_self]
  · rw [release_calls_of_ne hmn]; exact h m hm

theorem rebuild (h : s.Fresh) (itemId : String) : (s.rebuildItemProjection itemId).Fresh := by
  intro n hn
  cases hproject : s.project itemId with
  | error e =>
    have hs : s.rebuildItemProjection itemId = s := by unfold rebuildItemProjection; rw [hproject]
    rw [hs] at hn ⊢
    exact h n hn
  | ok projected =>
    rw [rebuild_next hproject] at hn
    rw [rebuild_calls_of_ne (by omega)]
    exact h n (by omega)

end Fresh

/-- The end of a rebuild. -/
def endRebuild (itemId : String) (projected : CachedEncryptedItem) (generation : Nat) : AccountVaultReplica :=
  if generation ≠ s.hydrationGeneration then s.setItem itemId none
  else s.setItem itemId (decryptItem plaintext projected)

def acknowledge (command : ItemSyncCommand) (entityId : String) (version : Nat) : AccountVaultReplica :=
  let s := s.deleteCommand command
  match command.type with
  | .crossAccountMove => (s.setAuthoritative command.entityId none).await (.removing command.entityId)
  | .permanentDelete => (s.setAuthoritative entityId none).await (.removing entityId)
  | _ =>
    let base := s.authoritativeItems entityId
    if base.any fun item => version ≤ item.version then s.rebuildItemProjection entityId
    else match applyCommandToCachedItem base command with
      | .error _ => s
      | .ok none => s.rebuildItemProjection entityId
      | .ok (some projected) =>
        let acknowledged := { projected with id := entityId, version := version }
        (s.setAuthoritative entityId (some acknowledged)).await (.acknowledging acknowledged)

def clear : AccountVaultReplica :=
  { s with
    hydrationGeneration := s.hydrationGeneration + 1
    items := fun _ => none
    authoritativeItems := fun _ => none
    hydrated := false
    hydrating := false }

/-- A hydration is over; the flag is reset in the `finally` of `hydrate`. -/
def endHydration (isLocal : Bool) (generation : Nat) : AccountVaultReplica :=
  { s with
    hydration := .none
    hydrating := s.hydrating && !(isLocal && generation = s.hydrationGeneration) }

/-- The loop over the items with pending commands, up to its next wait. -/
def projectNext (isLocal : Bool) (generation : Nat) : List String → AccountVaultReplica
  | [] => { s with hydrated := true }.endHydration isLocal generation
  | itemId :: itemIds =>
    match s.project itemId with
    | .error _ => s.endHydration isLocal generation
    | .ok _ => { s.rebuildItemProjection itemId with hydration := .projecting isLocal generation s.next itemIds }

/-- The maps are replaced by what the hydration has read. -/
def replaceItems (isLocal : Bool) (generation : Nat) (cachedItems : CachedItems) : AccountVaultReplica :=
  if generation ≠ s.hydrationGeneration then s.endHydration isLocal generation
  else { s with
      items := fun id => (cachedItems id).bind (decryptItem plaintext)
      authoritativeItems := cachedItems }.projectNext isLocal generation
    (s.pendingCommands.map ItemSyncCommand.entityId).eraseDups

/-- The records with a pending command that carries ciphertext. -/
def conflictBases : List CachedEncryptedItem :=
  (s.pendingCommands.map ItemSyncCommand.entityId).eraseDups.filterMap fun itemId =>
    if s.hasPendingEncryptedCommand itemId then s.authoritativeItems itemId else none

/-- What a call does with its answer. -/
def proceed : ReplicaCall → AccountVaultReplica
  | .upserting item =>
    if storedIsNewer (s.authoritativeItems item.id) item then s
    else (s.setAuthoritative item.id (some item)).rebuildItemProjection item.id
  | .acknowledging item => (s.persistItem item).1.rebuildItemProjection item.id
  | .removing itemId => (s.setCached itemId none).rebuildItemProjection itemId
  | .preserving command _ => (s.deleteCommand command).rebuildItemProjection command.entityId
  | .rebuilding itemId projected generation => s.endRebuild plaintext itemId projected generation

/-- The hydration goes on to its next wait, or to its end. -/
def proceedHydration : Option AccountVaultReplica :=
  match s.hydration with
  | .reading generation => some { s with hydration := .decrypting true generation s.itemCache }
  | .staging generation bases => some { s with hydration := .fetching generation bases s.itemCache }
  | .promoted generation bases =>
    some { s with hydration := .restoring generation s.itemCache (bases.filter fun b => (s.itemCache b.id).isNone) }
  | .restoring generation cachedItems [] => some { s with hydration := .decrypting false generation cachedItems }
  | .restoring generation cachedItems (base :: missing) =>
    some { (s.persistItem base).1 with
      hydration := .restoring generation (Function.update cachedItems base.id (some base)) missing }
  | .decrypting isLocal generation cachedItems => some (s.replaceItems plaintext isLocal generation cachedItems)
  | .projecting isLocal generation awaited itemIds =>
    if (s.calls awaited).isSome then none
    else if generation ≠ s.hydrationGeneration then
      some ((if isLocal then s.clear else s).endHydration isLocal generation)
    else some (s.projectNext isLocal generation itemIds)
  | .fetching .. | .none => none

/-- What the hydration waits for throws. -/
def failHydration : Option AccountVaultReplica :=
  match s.hydration with
  | .reading generation => some (s.endHydration true generation)
  | .decrypting isLocal generation _ => some (s.endHydration isLocal generation)
  | .staging generation _ | .fetching generation _ _ | .promoted generation _ | .restoring generation _ _ =>
    some (s.endHydration false generation)
  | .projecting .. | .none => none

def step : ReplicaLabel → Option AccountVaultReplica
  | .applyItemCommand command => some ((s.setCommand command).rebuildItemProjection command.entityId)
  | .acknowledgeItemCommand command entityId (some version) => some (s.acknowledge command entityId version)
  | .acknowledgeItemCommand _ _ none => some s
  | .preserveItemConflict command =>
    match command.type, command.conflictCopyId, s.items command.entityId with
    | .update, some _, some item | .move, some _, some item | .crossAccountMove, some _, some item =>
      some (s.await (.preserving command item))
    | _, _, _ => some s
  | .upsertEncrypted item =>
    some (if (s.persistItem item).2 then (s.persistItem item).1.await (.upserting item) else s)
  | .removeCachedItem itemId =>
    some (if s.hasPendingEncryptedCommand itemId then s.rebuildItemProjection itemId
      else (s.setAuthoritative itemId none).await (.removing itemId))
  | .resume n => (s.calls n).map fun call => (s.release n).proceed plaintext call
  | .reject n => (s.calls n).bind fun call => if call.rejects then some (s.release n) else none
  | .hydrate =>
    match s.hydration with
    | .none => some (if s.hydrating then s else { s with
        hydrationGeneration := s.hydrationGeneration + 1
        hydrating := true
        hydration := .reading (s.hydrationGeneration + 1) })
    | _ => none
  | .hydrateFromServer =>
    match s.hydration with
    | .none => some { s with hydration := .staging s.hydrationGeneration s.conflictBases }
    | _ => none
  | .promote pageItems =>
    match s.hydration with
    | .fetching generation bases baseline =>
      some { s with
        itemCache := fun id => promoteItem (baseline id) (s.itemCache id) (stageItems pageItems id)
        hydration := .promoted generation bases }
    | _ => none
  | .resumeHydration => s.proceedHydration plaintext
  | .rejectHydration => s.failHydration

/-- No call is in progress. -/
def Quiet : Prop := (∀ n, s.calls n = none) ∧ s.hydration = .none

/-- What is displayed of an item is what its pending commands make of its record. -/
def ShowsProjection (itemId : String) : Prop :=
  ∃ projected, s.project itemId = .ok projected ∧ s.items itemId = projected.bind (decryptItem plaintext)

end AccountVaultReplica

/-- The command has the data its projection reads. -/
def ItemSyncCommand.Projectable (c : ItemSyncCommand) : Prop :=
  (c.type = .create → c.category.isSome) ∧
  (c.type = .create ∨ c.type = .update ∨ c.type = .move → c.encryptedPayload.isSome)

/-- The replica of an unlocked account, just opened or hydrated from its cache, and at rest. -/
structure AccountVaultReplica.AtRest (plaintext : CachedEncryptedItem → Option String) (s : AccountVaultReplica) :
    Prop where
  quiet : s.Quiet
  hydrating : s.hydrating = false
  numbered : ∀ itemId, s.latestRebuild itemId < s.next
  projectable : ∀ c ∈ s.pendingCommands, c.Projectable
  shows : ∀ itemId, s.ShowsProjection plaintext itemId
  filed : ∀ itemId item, s.itemCache itemId = some item → item.id = itemId
  hydrated : s.hydrated = true → s.authoritativeItems = s.itemCache
  unhydrated : s.hydrated = false → s.authoritativeItems = fun _ => none

def accountVaultReplica (plaintext : CachedEncryptedItem → Option String) :
    System AccountVaultReplica ReplicaLabel where
  init s := s.AtRest plaintext
  step s a := s.step plaintext a

end Bittery
