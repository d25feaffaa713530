/-
The rows of the server's database that the modelled services read and write, and the
statements several services share.

Every table is keyed by its primary key. Foreign keys to vaults, items and teams, and of a
vault and its keys to users, are checked where a row is inserted or repointed; that the
caller of a request exists is not. `vault_key` has no uniqueness on (vault, user), so none is assumed.
The sequence number of a sync event identifies it (its `id` is a random string), and
timestamps other than `deleted_at` and the deadlines of rotation plans are left out.
-/
import Bittery.Lib.Snapshot
import Bittery.Server.Error

namespace Bittery

open Lib

abbrev Time := Nat

/-! ## Enumerations -/

inductive VaultRole
  | owner | admin | member | readOnly
deriving DecidableEq, Repr

namespace VaultRole

def canWrite : VaultRole → Bool
  | owner | admin | member => true
  | readOnly => false

def canManage : VaultRole → Bool
  | owner | admin => true
  | member | readOnly => false

end VaultRole

inductive TeamRole
  | owner | admin | member
deriving DecidableEq, Repr

def TeamRole.canManage : TeamRole → Bool
  | owner | admin => true
  | member => false

inductive VaultType
  | personal | team
deriving DecidableEq, Repr

inductive TeamType
  | personal | family | organization
deriving DecidableEq, Repr

inductive BillingPlan
  | free | personal | family | team
deriving DecidableEq, Repr

inductive BillingStatus
  | none | incomplete | trialing | active | pastDue | canceled | unpaid
deriving DecidableEq, Repr

def BillingStatus.isActive : BillingStatus → Bool
  | active | trialing => true
  | _ => false

inductive ItemCategory
  | login | secureNote | creditCard | identity | totp
deriving DecidableEq, Repr

inductive SyncEventType
  | itemCreated | itemUpdated | itemDeleted | itemRestored | itemPermanentlyDeleted | itemMoved
  | vaultCreated | vaultUpdated | vaultDeleted | vaultAccessRevoked
  | vaultMemberAdded | vaultMemberRemoved | vaultKeyRotated | travelModeUpdated
deriving DecidableEq, Repr

inductive SyncEntityType
  | item | vault | vaultMember | vaultKey
deriving DecidableEq, Repr

/-- The deployment modes; a self-hosted server has every entitlement. -/
inductive DeploymentMode
  | cloud | selfHosted
deriving DecidableEq, Repr

/-! ## Rows -/

structure User where
  id : String
  name : String
  publicKey : String
  teamId : Option String
  role : TeamRole
deriving DecidableEq, Repr

structure Session where
  id : String
  userId : String
deriving DecidableEq, Repr

structure Team where
  id : String
  name : String
  ownerId : String
  type : TeamType
  billingPlan : BillingPlan
  billingStatus : BillingStatus
deriving DecidableEq, Repr

structure Vault where
  id : String
  name : String
  icon : Option String := none
  imageKey : Option String := none
  type : VaultType
  createdById : String
  teamId : Option String
  keyVersion : Nat := 1
deriving DecidableEq, Repr

structure VaultKey where
  id : String
  vaultId : String
  userId : String
  encryptedVaultKey : String
  role : VaultRole
deriving DecidableEq, Repr

structure Item where
  id : String
  vaultId : String
  category : ItemCategory
  favorite : Bool
  encryptedData : String
  encryptionIv : String
  encryptionAlgorithm : String
  version : Nat
  encryptionVersion : Nat
  encryptedByUserId : String
  lastModifiedBy : String
  deletedAt : Option Time
deriving DecidableEq, Repr

structure ItemAttachment where
  id : String
  itemId : String
  vaultId : String
  encryptedAttachmentKey : String
  attachmentKeyIv : String
  attachmentKeyAlgorithm : String
  envelopeVersion : Nat
  encryptedName : String
  encryptionIv : String
  encryptionAlgorithm : String
  uploadedBy : String
deriving DecidableEq, Repr

/-- The metadata of an event. On the wire it is a JSON object with these fields. -/
inductive EventMetadata
  | moved (sourceVaultId : String)
  | bulkImport (importedCount : Nat)
  | memberAdded (addedUserId : String) (role : VaultRole)
  | rotation (rotationId : String)
  | memberRemoved (rotationId removedUserId : String)
  | vaultDeleted (vaultId : String)
  | tombstoneCleanup
deriving DecidableEq, Repr

structure SyncEvent where
  seq : Nat
  eventType : SyncEventType
  entityId : String
  entityType : SyncEntityType
  vaultId : Option String
  userId : String
  version : Nat
  clientId : Option String
  metadata : Option EventMetadata
deriving DecidableEq, Repr

/-! ### Rotation plans -/

inductive PlanState
  | preparing | ready | completed | stale | failed | abandoned | expired
deriving DecidableEq, Repr

/-- `state IN ('preparing', 'ready')`. -/
def PlanState.isActive : PlanState → Bool
  | preparing | ready => true
  | _ => false

inductive StaleReason
  | vaultVersion | memberSet | itemState | attachmentState
deriving DecidableEq, Repr

inductive RotationReason
  | memberRemoved | scheduled | securityBreach | manual
deriving DecidableEq, Repr

inductive ManifestKind
  | member | item | attachment
deriving DecidableEq, Repr

/-- `VaultKeyRotationManifestKind::ALL`. -/
def ManifestKind.all : List ManifestKind := [.member, .item, .attachment]

/-- The payload of a manifest record. It is stored as the text of a JSON object with these fields. -/
inductive ManifestPayload
  | member (userId publicKey : String) (role : VaultRole)
  | item (id vaultId encryptedData encryptionIv encryptionAlgorithm : String) (encryptionVersion : Nat)
      (encryptedByUserId : String)
  | attachment (encryptedAttachmentKey attachmentKeyIv attachmentKeyAlgorithm vaultId attachmentId uploadedBy : String)
      (envelopeVersion : Nat)
deriving DecidableEq, Repr

/-- A record of a manifest; its kind is that of its payload. -/
structure ManifestRecord where
  entityId : String
  expectedVersion : Nat
  payload : ManifestPayload
deriving DecidableEq, Repr

def ManifestRecord.kind (m : ManifestRecord) : ManifestKind :=
  match m.payload with
  | .member .. => .member
  | .item .. => .item
  | .attachment .. => .attachment

def ManifestRecord.key (m : ManifestRecord) : ManifestKind × String := (m.kind, m.entityId)

/-- A staged payload: the text the client sent and the string fields of the JSON object
it is (`none`: the text is no JSON object). -/
structure StagedPayload where
  text : String
  object : Option (List (String × String))
deriving DecidableEq, Repr

/-- `payload ->> name`. -/
def StagedPayload.field (p : StagedPayload) (name : String) : Option String :=
  p.object.bind fun fields => fields.lookup name

/-- The fields a staged output of a kind has to have. -/
def ManifestKind.required : ManifestKind → List String
  | member => ["encryptedVaultKey"]
  | item => ["encryptedData", "encryptionIv", "encryptionAlgorithm"]
  | attachment => ["encryptedAttachmentKey", "attachmentKeyIv", "attachmentKeyAlgorithm"]

/-- `validate_staged_payload`. -/
def StagedPayload.valid (kind : ManifestKind) (p : StagedPayload) : Bool :=
  kind.required.all fun name => (p.field name).any (· ≠ "")

/-- A staged output. Only a valid payload is stored. -/
structure StagedRecord where
  kind : ManifestKind
  entityId : String
  payload : StagedPayload
  valid : payload.valid kind = true
deriving DecidableEq

def StagedRecord.key (s : StagedRecord) : ManifestKind × String := (s.kind, s.entityId)

/-- The text of a required field. -/
def StagedRecord.get (s : StagedRecord) (name : String) : String := (s.payload.field name).getD ""

/-- A rotation plan with its manifest and its staged outputs. In the database these are two
tables of their own; they are written and deleted with the row of the plan alone. -/
structure RotationPlan where
  id : String
  vaultId : String
  initiatorUserId : String
  reason : RotationReason
  authorizationContext : String
  excludedUserId : Option String
  expectedKeyVersion : Nat
  state : PlanState
  staleReason : Option StaleReason
  idleExpiresAt : Time
  absoluteExpiresAt : Time
  manifest : Table ManifestRecord.key
  staged : Table StagedRecord.key
deriving DecidableEq

/-- A row of `vault_key_rotation`. -/
structure RotationRecord where
  id : String
  vaultId : String
  keyVersion : Nat
  reason : RotationReason
  initiatedById : String
  removedUserId : Option String
  itemsReEncrypted : Nat
  membersUpdated : Nat
deriving DecidableEq, Repr

/-! ## The database -/

structure Db where
  users : Table User.id
  sessions : Table Session.id
  teams : Table Team.id
  vaults : Table Vault.id
  vaultKeys : Table VaultKey.id
  items : Table Item.id
  attachments : Table ItemAttachment.id
  plans : Table RotationPlan.id
  rotations : Table RotationRecord.id
  /-- In the order of their sequence numbers. -/
  events : List SyncEvent
  /-- The next value of the sequence of `sync_event.seq`. -/
  nextSeq : Nat
deriving DecidableEq

namespace Db

/-- The database after the migrations. -/
def empty : Db :=
  { users := .empty, sessions := .empty, teams := .empty, vaults := .empty, vaultKeys := .empty,
    items := .empty, attachments := .empty, plans := .empty, rotations := .empty, events := [], nextSeq := 1 }

instance : Inhabited Db := ⟨empty⟩

def hasVault (db : Db) (vaultId : String) : Bool := (db.vaults.get? vaultId).isSome

theorem hasVault_iff {db : Db} {vaultId : String} : db.hasVault vaultId = true ↔ ∃ v ∈ db.vaults, v.id = vaultId :=
  Table.isSome_get?_iff

/-- Some key of the vault belongs to the user. -/
def holdsKey (db : Db) (userId vaultId : String) : Bool :=
  db.vaultKeys.any fun k => k.vaultId = vaultId && k.userId = userId

theorem holdsKey_iff {db : Db} {userId vaultId : String} :
    db.holdsKey userId vaultId = true ↔ ∃ k ∈ db.vaultKeys, k.vaultId = vaultId ∧ k.userId = userId := by
  simp only [holdsKey, Table.any_eq_true, Bool.and_eq_true, decide_eq_true_eq]

/-- Every key belongs to a user (the foreign key of `vault_key.user_id`). -/
def KeysHaveUsers (db : Db) : Prop := ∀ k ∈ db.vaultKeys, (db.users.get? k.userId).isSome = true

/-- The foreign keys the proofs rest on. -/
structure Referential (db : Db) : Prop where
  items : ∀ i ∈ db.items, db.hasVault i.vaultId = true
  attachments : ∀ a ∈ db.attachments, db.hasVault a.vaultId = true
  keys : ∀ k ∈ db.vaultKeys, db.hasVault k.vaultId = true
  users : db.KeysHaveUsers

/-- Appends an event with the next sequence number; its vault is not checked. -/
def appendEvent (db : Db) (e : SyncEvent) : Db :=
  { db with events := db.events ++ [{ e with seq := db.nextSeq }], nextSeq := db.nextSeq + 1 }

/-- `insert_sync_event`: the event of one vault, which has to exist. -/
def insertSyncEvent (db : Db) (eventType : SyncEventType) (entityId : String) (entityType : SyncEntityType)
    (vaultId userId : String) (version : Nat) (clientId : Option String) (metadata : Option EventMetadata) :
    Except AppError Db :=
  if db.hasVault vaultId then
    .ok (db.appendEvent ⟨0, eventType, entityId, entityType, some vaultId, userId, version, clientId, metadata⟩)
  else .error (.internal "Failed to create sync event")

end Db

/-! ## Entitlements -/

/-- `team_management_enabled`. -/
def teamManagementEnabled (mode : DeploymentMode) (plan : BillingPlan) (status : BillingStatus) : Bool :=
  match mode with
  | .selfHosted => true
  | .cloud => (plan = .family || plan = .team) && status.isActive

/-- `resolve_vault_sharing_entitlement`: whether sharing is allowed and how many shared vaults. -/
def resolveVaultSharingEntitlement (mode : DeploymentMode) (plan : Option BillingPlan)
    (status : Option BillingStatus) : Bool × Option Nat :=
  match mode with
  | .selfHosted => (true, none)
  | .cloud =>
    let isActive := status.any BillingStatus.isActive
    match plan with
    | some .family => if isActive then (true, some 5) else (false, some 0)
    | some .team => if isActive then (true, none) else (false, some 0)
    | _ => (false, some 0)

/-- The billing row of a user's team: team, plan and status. -/
def loadTeamBillingEntitlement (db : Db) (userId : String) :
    Option (Option String × Option BillingPlan × Option BillingStatus) :=
  (db.users.get? userId).map fun u =>
    let team := u.teamId.bind db.teams.get?
    (u.teamId, team.map (·.billingPlan), team.map (·.billingStatus))

end Bittery
