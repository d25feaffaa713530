/-
Rotation plans: `domains/vaults/rotation/plans.rs`.

A plan takes a manifest of a vault in one REPEATABLE READ transaction, collects staged
outputs over many requests, and is finalized inside a SERIALIZABLE transaction of its
caller. Such a transaction is a value `tx : Versions Db`: the statements read
`tx.snapshot`, which is the database at the first statement of the transaction plus its own
writes, and write `tx.current`. Every other service writes at READ COMMITTED, so the only
conflicts are those on the rows the transaction itself locks, rewrites or deletes.

Left out: the texts of internal errors. Two staged payloads are compared as texts and not
by their SHA-256. Deadlines are in milliseconds.
-/
import Mathlib.Data.List.Sort
import Bittery.Server.Db

namespace Bittery

open Lib

/-! ## The tables -/

namespace Db

def usersTable : TableOf Db User.id := ⟨users, fun db t => { db with users := t }⟩
def sessionsTable : TableOf Db Session.id := ⟨sessions, fun db t => { db with sessions := t }⟩
def teamsTable : TableOf Db Team.id := ⟨teams, fun db t => { db with teams := t }⟩
def vaultsTable : TableOf Db Vault.id := ⟨vaults, fun db t => { db with vaults := t }⟩
def vaultKeysTable : TableOf Db VaultKey.id := ⟨vaultKeys, fun db t => { db with vaultKeys := t }⟩
def itemsTable : TableOf Db Item.id := ⟨items, fun db t => { db with items := t }⟩
def attachmentsTable : TableOf Db ItemAttachment.id := ⟨attachments, fun db t => { db with attachments := t }⟩
def plansTable : TableOf Db RotationPlan.id := ⟨plans, fun db t => { db with plans := t }⟩
def rotationsTable : TableOf Db RotationRecord.id := ⟨rotations, fun db t => { db with rotations := t }⟩

end Db

/-! ## Creating a plan -/

def IDLE_LIFETIME : Time := 30 * 60 * 1000
def ABSOLUTE_LIFETIME : Time := 24 * 60 * 60 * 1000
def MAX_PAGE_RECORDS : Nat := 100
def MAX_PAGE_BYTES : Nat := 512 * 1024
def MAX_CLEANUP_BATCH : Nat := 500

structure CreateRotationPlanInput where
  vaultId : String
  initiatorUserId : String
  reason : RotationReason
  authorizationContext : String
  excludedUserId : Option String
deriving DecidableEq, Repr

/-- The keys of a vault with the users they belong to, one user left out. -/
def remainingMembers (db : Db) (vaultId : String) (excluded : Option String) : List (VaultKey × User) :=
  (db.vaultKeys.select fun k => k.vaultId = vaultId && decide (some k.userId ≠ excluded)).filterMap fun k =>
    (db.users.get? k.userId).map fun u => (k, u)

def memberManifest (db : Db) (vaultId : String) (excluded : Option String) (keyVersion : Nat) : List ManifestRecord :=
  (remainingMembers db vaultId excluded).map fun (k, u) =>
    ⟨k.userId, keyVersion, .member k.userId u.publicKey k.role⟩

/-- Items in the trash are included. -/
def itemManifest (db : Db) (vaultId : String) : List ManifestRecord :=
  (db.items.select fun i => i.vaultId = vaultId).map fun i =>
    ⟨i.id, i.version, .item i.id i.vaultId i.encryptedData i.encryptionIv i.encryptionAlgorithm
      i.encryptionVersion i.encryptedByUserId⟩

def attachmentManifest (db : Db) (vaultId : String) : List ManifestRecord :=
  (db.attachments.select fun a => a.vaultId = vaultId).map fun a =>
    ⟨a.id, a.envelopeVersion, .attachment a.encryptedAttachmentKey a.attachmentKeyIv
      a.attachmentKeyAlgorithm a.vaultId a.id a.uploadedBy a.envelopeVersion⟩

/-- `create_plan`. The manifest refuses a user with two keys of the vault. -/
def createPlan (tx : Versions Db) (now : Time) (id : String) (input : CreateRotationPlanInput) : Except AppError Db :=
  match tx.snapshot.vaults.get? input.vaultId with
  | none => .error (.notFound "Vault not found")
  | some vault =>
    let records := memberManifest tx.snapshot input.vaultId input.excludedUserId vault.keyVersion ++
      itemManifest tx.snapshot input.vaultId ++ attachmentManifest tx.snapshot input.vaultId
    if h : (records.map ManifestRecord.key).Nodup ∧ tx.current.hasVault input.vaultId = true then
      let plan : RotationPlan :=
        { id := id, vaultId := input.vaultId, initiatorUserId := input.initiatorUserId, reason := input.reason,
          authorizationContext := input.authorizationContext, excludedUserId := input.excludedUserId,
          expectedKeyVersion := vault.keyVersion, state := .preparing, staleReason := none,
          idleExpiresAt := now + IDLE_LIFETIME, absoluteExpiresAt := now + ABSOLUTE_LIFETIME,
          manifest := ⟨records, h.1⟩, staged := .empty }
      match tx.current.plans.insert plan with
      | some plans => .ok { tx.current with plans := plans }
      | none => .error (.internal "Vault key rotation database operation failed")
    else .error (.internal "Vault key rotation database operation failed")

/-! ## Preparing -/

def RotationPlan.expired (p : RotationPlan) (now : Time) : Bool :=
  p.idleExpiresAt ≤ now || p.absoluteExpiresAt ≤ now

/-- The row a request on a plan reads: by its initiator, who has to hold a key. -/
def findPlan (db : Db) (planId initiatorUserId : String) : Option RotationPlan :=
  (db.plans.get? planId).filter fun p =>
    p.initiatorUserId = initiatorUserId && db.holdsKey initiatorUserId p.vaultId

def loadActivePlan (db : Db) (now : Time) (planId initiatorUserId : String) : Except AppError RotationPlan :=
  match findPlan db planId initiatorUserId with
  | none => .error (.notFound "Rotation plan not found")
  | some p =>
    if ¬ p.state.isActive then .error (.conflict "Rotation plan is no longer active")
    else if p.expired now then .error (.conflict "Rotation plan expired")
    else .ok p

/-- `UPDATE vault_key_rotation_plan SET … WHERE id`. -/
def updatePlanRow (db : Db) (planId : String) (f : RotationPlan → RotationPlan) : Db :=
  { db with plans := db.plans.updateWhere (fun p => p.id = planId) fun p => { f p with id := p.id } }

def RotationPlan.idleUntil (deadline : Time) (p : RotationPlan) : RotationPlan := { p with idleExpiresAt := deadline }

def RotationPlan.refreshIdle (now : Time) (p : RotationPlan) : RotationPlan :=
  p.idleUntil (min (now + IDLE_LIFETIME) p.absoluteExpiresAt)

structure PreparationPage where
  records : List ManifestRecord
  nextCursor : Option String
deriving DecidableEq, Repr

/-- The records of a page: as many as fit into the byte budget. -/
def takePage (payloadText : ManifestPayload → String) : Nat → List ManifestRecord → Except AppError (List ManifestRecord)
  | _, [] => .ok []
  | bytes, m :: rest => do
    let recordBytes := m.entityId.utf8ByteSize + (payloadText m.payload).utf8ByteSize + 16
    if bytes ≠ 0 && MAX_PAGE_BYTES < bytes + recordBytes then return []
    if MAX_PAGE_BYTES < recordBytes then throw (.payloadTooLarge "Rotation record exceeds page limit")
    return m :: (← takePage payloadText (bytes + recordBytes) rest)

/-- `read_preparation_page`; `payloadText` is the text of the stored JSON. -/
def readPreparationPage (payloadText : ManifestPayload → String) (db : Db) (now : Time)
    (planId initiatorUserId : String) (kind : ManifestKind) (cursor : Option String) (requestedLimit : Nat) :
    Except AppError (Db × PreparationPage) := do
  let plan ← loadActivePlan db now planId initiatorUserId
  let limit := max 1 (min requestedLimit MAX_PAGE_RECORDS)
  let rows := ((plan.manifest.select fun m => m.kind = kind && (cursor.getD "" < m.entityId)).insertionSort
    fun a b => a.entityId ≤ b.entityId).take (limit + 1)
  let records ← takePage payloadText 0 (rows.take limit)
  let nextCursor := if records.length < rows.length then records.getLast?.map (·.entityId) else none
  return (updatePlanRow db planId (RotationPlan.refreshIdle now), ⟨records, nextCursor⟩)

structure StagedOutput where
  id : String
  payload : StagedPayload
deriving DecidableEq, Repr

/-- One output: in the manifest, well formed, and equal to an earlier upload. -/
def stageOutput (plan : RotationPlan) (kind : ManifestKind) (output : StagedOutput) : Except AppError RotationPlan :=
  if MAX_PAGE_BYTES < output.payload.text.utf8ByteSize then
    .error (.payloadTooLarge "Staged output exceeds limit")
  else if (plan.manifest.get? (kind, output.id)).isNone then
    .error (.badRequest "Staged output is not in the plan manifest")
  else if h : output.payload.valid kind = true then
    match plan.staged.insert ⟨kind, output.id, output.payload, h⟩ with
    | some staged => .ok { plan with staged := staged }
    | none =>
      if (plan.staged.get? (kind, output.id)).any fun s => s.payload = output.payload then .ok plan
      else .error (.conflict "Staged output conflicts with an earlier upload")
  else .error (.badRequest "Invalid staged output")

/-- Manifest records without a staged output. -/
def RotationPlan.missing (p : RotationPlan) (kind : ManifestKind) : List ManifestRecord :=
  p.manifest.select fun m => m.kind = kind && (p.staged.get? m.key).isNone

def RotationPlan.isComplete (p : RotationPlan) : Bool := ManifestKind.all.all fun kind => (p.missing kind).isEmpty

def stageOutputs (db : Db) (now : Time) (planId initiatorUserId : String) (kind : ManifestKind)
    (outputs : List StagedOutput) : Except AppError Db := do
  if outputs.isEmpty || MAX_PAGE_RECORDS < outputs.length then
    throw (.badRequest "Invalid staged output page size")
  let plan ← loadActivePlan db now planId initiatorUserId
  if MAX_PAGE_BYTES < (outputs.map fun o => o.id.utf8ByteSize + o.payload.text.utf8ByteSize + 16).sum then
    throw (.payloadTooLarge "Staged output page exceeds limit")
  let staged ← outputs.foldlM (stageOutput · kind) plan
  return updatePlanRow db planId fun p =>
    let p := { p with staged := staged.staged }
    RotationPlan.refreshIdle now (if p.isComplete then { p with state := .ready } else p)

def abandonPlan (db : Db) (now : Time) (planId initiatorUserId : String) : Except AppError Db :=
  if db.plans.any fun p => p.id = planId && p.initiatorUserId = initiatorUserId && p.state.isActive && !p.expired now then
    .ok (updatePlanRow db planId fun p => { p with state := .abandoned })
  else .error (.conflict "Rotation plan is no longer active")

/-- `record_stale`: a plan that is no longer active keeps its state. -/
def recordStale (db : Db) (planId : String) (reason : StaleReason) : Db :=
  updatePlanRow db planId fun p => if p.state.isActive then { p with state := .stale, staleReason := some reason } else p

/-- `cleanup_rotation_plans`; the plans in `locked` are skipped. -/
def cleanupRotationPlans (db : Db) (now : Time) (locked : List String) (requestedLimit : Nat) : Db :=
  let limit := max 1 (min requestedLimit MAX_CLEANUP_BATCH)
  let doomed := (((db.plans.select fun p => (!p.state.isActive || p.expired now) && decide (p.id ∉ locked)).insertionSort
    fun a b => a.absoluteExpiresAt < b.absoluteExpiresAt ∨
      a.absoluteExpiresAt = b.absoluteExpiresAt ∧ a.id ≤ b.id).take limit).map (·.id)
  { db with plans := db.plans.deleteWhere fun p => decide (p.id ∈ doomed) }

/-! ## Finalizing -/

inductive FinalizeError
  | stale (reason : StaleReason)
  | invalidState
  | incomplete
  | retryableConflict
  | database
deriving DecidableEq, Repr

/-- A statement that a concurrent change refuses. -/
def orConflict {α : Type} (x : Option α) : Except FinalizeError α := (x.map Except.ok).getD (.error .retryableConflict)

structure RotationResult where
  planId : String
  vaultId : String
  keyVersion : Nat
  rotationId : String
deriving DecidableEq, Repr

/-- The policy binding of an active plan, and its row locked. -/
def lockPlanPolicy (tx : Versions Db) (now : Time) (planId : String) : Except FinalizeError RotationPlan := do
  match (tx.snapshot.plans.get? planId).filter fun p => p.state.isActive && !p.expired now with
  | none => throw .invalidState
  | some p =>
    orConflict (Db.plansTable.lock tx fun r => r.id = planId)
    return p

/-- The plan and its vault, locked. -/
def lockPlanAndVault (tx : Versions Db) (now : Time) (planId initiatorUserId : String) :
    Except FinalizeError (RotationPlan × Vault) := do
  match findPlan tx.snapshot planId initiatorUserId with
  | none => throw .invalidState
  | some plan =>
    orConflict (Db.plansTable.lock tx fun r => r.id = planId)
    if ¬ plan.state.isActive || plan.expired now then throw .invalidState
    match tx.snapshot.vaults.get? plan.vaultId with
    | none => throw .invalidState
    | some vault =>
      orConflict (Db.vaultsTable.lock tx fun v => v.id = plan.vaultId)
      return (plan, vault)

/-- The manifest as sets of tuples, to compare with `memberTuples`. -/
def RotationPlan.manifestMembers (p : RotationPlan) : List (String × String × VaultRole) :=
  p.manifest.rows.filterMap fun m =>
    match m.payload with
    | .member _ publicKey role => some (m.entityId, publicKey, role)
    | _ => none

def memberTuples (db : Db) (p : RotationPlan) : List (String × String × VaultRole) :=
  (remainingMembers db p.vaultId p.excludedUserId).map fun (k, u) => (k.userId, u.publicKey, k.role)

def RotationPlan.memberStale (p : RotationPlan) (db : Db) : Bool :=
  (p.manifestMembers.any fun t => decide (t ∉ memberTuples db p)) ||
    (memberTuples db p).any fun t => decide (t ∉ p.manifestMembers)

/-- Whether the manifest records of a kind differ from the rows, given as ids with versions. -/
def RotationPlan.versionsStale (p : RotationPlan) (kind : ManifestKind) (rows : List (String × Nat)) : Bool :=
  (p.manifest.rows.any fun m => m.kind = kind && decide ((m.entityId, m.expectedVersion) ∉ rows)) ||
    rows.any fun r => !(p.manifest.get? (kind, r.1)).any fun m => m.expectedVersion = r.2

def itemVersions (db : Db) (vaultId : String) : List (String × Nat) :=
  (db.items.select fun i => i.vaultId = vaultId).map fun i => (i.id, i.version)

def attachmentVersions (db : Db) (vaultId : String) : List (String × Nat) :=
  (db.attachments.select fun a => a.vaultId = vaultId).map fun a => (a.id, a.envelopeVersion)

/-- Why a plan cannot be applied to the state the transaction sees. A stale plan is marked
in the transaction, which the callers then roll back. -/
def checkPlan (db : Db) (plan : RotationPlan) (vault : Vault) : Except FinalizeError Unit :=
  if vault.keyVersion ≠ plan.expectedKeyVersion then .error (.stale .vaultVersion)
  else if ¬ plan.isComplete then .error .incomplete
  else if plan.memberStale db then .error (.stale .memberSet)
  else if plan.versionsStale .item (itemVersions db plan.vaultId) then .error (.stale .itemState)
  else if plan.versionsStale .attachment (attachmentVersions db plan.vaultId) then .error (.stale .attachmentState)
  else .ok ()

/-! ### The rows a plan rewrites -/

def RotationPlan.stagedFor (p : RotationPlan) (kind : ManifestKind) (id : String) : Option StagedRecord :=
  p.staged.get? (kind, id)

/-- The keys the plan deletes: those of the excluded user. -/
def RotationPlan.excludes (p : RotationPlan) (k : VaultKey) : Bool :=
  k.vaultId = p.vaultId && decide (some k.userId = p.excludedUserId)

def RotationPlan.rewrapsKey (p : RotationPlan) (k : VaultKey) : Bool :=
  k.vaultId = p.vaultId && (p.stagedFor .member k.userId).isSome

def RotationPlan.reencrypts (p : RotationPlan) (i : Item) : Bool :=
  i.vaultId = p.vaultId && (p.stagedFor .item i.id).isSome

def RotationPlan.rewrapsAttachment (p : RotationPlan) (a : ItemAttachment) : Bool :=
  a.vaultId = p.vaultId && (p.stagedFor .attachment a.id).isSome

def VaultKey.withOutput (s : StagedRecord) (k : VaultKey) : VaultKey :=
  { k with encryptedVaultKey := s.get "encryptedVaultKey" }

def Item.withOutput (s : StagedRecord) (i : Item) : Item :=
  { i with
    encryptedData := s.get "encryptedData"
    encryptionIv := s.get "encryptionIv"
    encryptionAlgorithm := s.get "encryptionAlgorithm"
    version := i.version + 1 }

def ItemAttachment.withOutput (s : StagedRecord) (a : ItemAttachment) : ItemAttachment :=
  { a with
    encryptedAttachmentKey := s.get "encryptedAttachmentKey"
    attachmentKeyIv := s.get "attachmentKeyIv"
    attachmentKeyAlgorithm := s.get "attachmentKeyAlgorithm"
    envelopeVersion := a.envelopeVersion + 1 }

def VaultKey.rewrap (p : RotationPlan) (k : VaultKey) : VaultKey :=
  (p.stagedFor .member k.userId).elim k fun s => k.withOutput s

def Item.reencrypt (p : RotationPlan) (i : Item) : Item :=
  (p.stagedFor .item i.id).elim i fun s => i.withOutput s

def ItemAttachment.rewrap (p : RotationPlan) (a : ItemAttachment) : ItemAttachment :=
  (p.stagedFor .attachment a.id).elim a fun s => a.withOutput s

theorem VaultKey.rewrap_id {p : RotationPlan} (k : VaultKey) : (k.rewrap p).id = k.id := by
  unfold VaultKey.rewrap; cases p.stagedFor .member k.userId <;> rfl

theorem Item.reencrypt_id {p : RotationPlan} (i : Item) : (i.reencrypt p).id = i.id := by
  unfold Item.reencrypt; cases p.stagedFor .item i.id <;> rfl

theorem ItemAttachment.rewrap_id {p : RotationPlan} (a : ItemAttachment) : (a.rewrap p).id = a.id := by
  unfold ItemAttachment.rewrap; cases p.stagedFor .attachment a.id <;> rfl

def rotationRecord (plan : RotationPlan) (rotationId : String) (keyVersion : Nat) : RotationRecord :=
  { id := rotationId, vaultId := plan.vaultId, keyVersion := keyVersion, reason := plan.reason,
    initiatedById := plan.initiatorUserId, removedUserId := plan.excludedUserId,
    itemsReEncrypted := plan.manifest.count fun m => m.kind = .item
    membersUpdated := plan.manifest.count fun m => m.kind = .member }

/-- The statements that carry out a rotation, in their order. -/
def applyPlan (tx : Versions Db) (plan : RotationPlan) (vault : Vault) (rotationId : String) :
    Except FinalizeError (Versions Db) := do
  let tx ← orConflict (Db.vaultKeysTable.delete tx plan.excludes)
  let tx ← orConflict (Db.vaultKeysTable.update tx plan.rewrapsKey (VaultKey.rewrap plan) VaultKey.rewrap_id)
  let tx ← orConflict (Db.itemsTable.update tx plan.reencrypts (Item.reencrypt plan) Item.reencrypt_id)
  let tx ← orConflict (Db.attachmentsTable.update tx plan.rewrapsAttachment (ItemAttachment.rewrap plan)
    ItemAttachment.rewrap_id)
  let tx ← orConflict (Db.vaultsTable.update tx (fun v => v.id = plan.vaultId)
    (fun v => { v with keyVersion := vault.keyVersion + 1 }) fun _ => rfl)
  match Db.rotationsTable.insert tx (rotationRecord plan rotationId (vault.keyVersion + 1)) with
  | none => throw .database
  | some tx =>
    orConflict (Db.plansTable.update tx (fun p => p.id = plan.id) (fun p => { p with state := .completed }) fun _ => rfl)

/-- The events of a rotation: one for each key that is left, and for the user who lost one. -/
def rotationEvents (db : Db) (plan : RotationPlan) (rotationId : String) (keyVersion : Nat) : List SyncEvent :=
  let keys := db.vaultKeys.select fun k => k.vaultId = plan.vaultId
  (keys.map fun k => ⟨0, .vaultKeyRotated, plan.vaultId, .vaultKey, some plan.vaultId, k.userId, keyVersion, none,
    some (.rotation rotationId)⟩) ++
  (match plan.excludedUserId with
  | none => []
  | some excluded =>
    (if plan.reason = .memberRemoved then keys.map fun k => ⟨0, .vaultMemberRemoved, excluded, .vaultMember,
      some plan.vaultId, k.userId, keyVersion, none, some (.memberRemoved rotationId excluded)⟩ else []) ++
    [⟨0, .vaultAccessRevoked, plan.vaultId, .vault, some plan.vaultId, excluded, keyVersion, none,
      some (.rotation rotationId)⟩])

/-- Both versions of the database get the events the transaction records. -/
def appendEvents (tx : Versions Db) (events : List SyncEvent) : Versions Db :=
  ⟨events.foldl Db.appendEvent tx.snapshot, events.foldl Db.appendEvent tx.current⟩

/-- `finalize_locked_plan`. -/
def finalizeLockedPlan (tx : Versions Db) (now : Time) (planId initiatorUserId rotationId : String) :
    Except FinalizeError (Versions Db × RotationResult) := do
  let (plan, vault) ← lockPlanAndVault tx now planId initiatorUserId
  checkPlan tx.snapshot plan vault
  let tx ← applyPlan tx plan vault rotationId
  let keyVersion := vault.keyVersion + 1
  return (appendEvents tx (rotationEvents tx.snapshot plan rotationId keyVersion),
    ⟨planId, plan.vaultId, keyVersion, rotationId⟩)

end Bittery
