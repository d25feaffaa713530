/-
The item requests of a queued command: `processMutation` and `writeOptions` of
`outbound-queue.ts`, the writes to items of `cross-account-item-command-executor.ts`, and the
routes of the generated client.

The requests about attachments of a move between accounts are left out: the handlers of
attachments do not read the idempotency key.
-/
import Bittery.Client.Commands

namespace Bittery

inductive RequestBody
  | none
  | create (category : ItemCategory) (encryptedData encryptionIv encryptionAlgorithm : String)
  | update (encryptedData encryptionIv encryptionAlgorithm : String)
  | move (sourceVaultId targetVaultId encryptedData encryptionIv encryptionAlgorithm : String)
  | favorite (favorite : Bool)
deriving DecidableEq, Repr

structure WriteRequest where
  method : String
  path : String
  body : RequestBody
  etag : Option String
  idempotencyKey : String
deriving DecidableEq, Repr

/-- A quoted version, as `If-Match` has it. -/
def strongItemEtag (version : Nat) : String := "\"" ++ toString version ++ "\""

/-- The writes to items that a command is sent as: one, or the three of a move between accounts. -/
inductive ItemStep
  | single | createTarget | trashSource | deleteSource
deriving DecidableEq, Repr

namespace ItemSyncCommand

variable (c : ItemSyncCommand)

/-- A request under `writeOptions`. -/
def conditional (method path : String) (body : RequestBody) : WriteRequest :=
  ⟨method, path, body, some (strongItemEtag c.baseVersion), c.attempt⟩

def processMutation : Except String WriteRequest :=
  match c.type with
  | .create =>
    match c.encryptedPayload, c.category with
    | some payload, some category => .ok ⟨"PUT", "/api/v1/vaults/" ++ c.vaultId ++ "/items/" ++ c.entityId,
        .create category payload.encryptedData payload.encryptionIv payload.encryptionAlgorithm, none, c.attempt⟩
    | _, _ => .error ("Invalid create mutation payload for " ++ c.entityId)
  | .update =>
    match c.encryptedPayload with
    | some payload => .ok (c.conditional "PATCH" ("/api/v1/items/" ++ c.entityId)
        (.update payload.encryptedData payload.encryptionIv payload.encryptionAlgorithm))
    | none => .error ("Invalid update mutation payload for " ++ c.entityId)
  | .delete => .ok (c.conditional "DELETE" ("/api/v1/items/" ++ c.entityId) .none)
  | .permanentDelete => .ok (c.conditional "DELETE" ("/api/v1/items/" ++ c.entityId ++ "/permanent") .none)
  | .restore => .ok (c.conditional "POST" ("/api/v1/items/" ++ c.entityId ++ "/restore") .none)
  | .move =>
    match c.encryptedPayload, c.targetVaultId with
    | some payload, some targetVaultId => .ok (c.conditional "POST" ("/api/v1/items/" ++ c.entityId ++ "/moves")
        (.move c.vaultId targetVaultId payload.encryptedData payload.encryptionIv payload.encryptionAlgorithm))
    | _, _ => .error ("Invalid move payload for " ++ c.entityId)
  | .crossAccountMove => .error ("Cross-account move " ++ c.operation ++ " requires a semantic executor")
  | .toggleFavorite => .ok (c.conditional "PATCH" ("/api/v1/items/" ++ c.entityId ++ "/favorite")
      (.favorite (c.favorite.getD false)))

/-- The write of a step of `executeSemanticItemCommand`; its key is the one of the operation. -/
def semanticRequest : ItemStep → Except String WriteRequest
  | .single => .error ("Cross-account move " ++ c.operation ++ " requires a semantic executor")
  | .createTarget =>
    match c.encryptedPayload, c.category, c.targetVaultId, c.targetItemId with
    | some payload, some category, some targetVaultId, some targetItemId =>
      .ok ⟨"PUT", "/api/v1/vaults/" ++ targetVaultId ++ "/items/" ++ targetItemId,
        .create category payload.encryptedData payload.encryptionIv payload.encryptionAlgorithm, none,
        c.operation ++ ":create-target"⟩
    | _, _, _, _ => .error ("Invalid cross-account move command " ++ c.operation)
  | .trashSource => .ok ⟨"DELETE", "/api/v1/items/" ++ c.entityId, .none, some (strongItemEtag c.baseVersion),
      c.operation ++ ":trash-source"⟩
  | .deleteSource => .ok ⟨"DELETE", "/api/v1/items/" ++ c.entityId ++ "/permanent", .none,
      some (strongItemEtag (c.baseVersion + 1)), c.operation ++ ":delete-source"⟩

def itemRequest (step : ItemStep) : Except String WriteRequest :=
  if c.type = .crossAccountMove then c.semanticRequest step
  else if step = .single then c.processMutation
  else .error ("Cross-account move " ++ c.operation ++ " requires a semantic executor")

end ItemSyncCommand

/-! ## Retries -/

/-- A command as it is sent again: attempts of it have failed, and it may have been restored
from the storage in between. -/
inductive Retries (c : ItemSyncCommand) : ItemSyncCommand → Prop
  | refl : Retries c c
  | marked {d : ItemSyncCommand} (now : Nat) (suffix error : String) : Retries c d → Retries c (d.markRetrying now suffix error)
  | scheduled {d : ItemSyncCommand} (now : Nat) (error : String) : Retries c d →
    Retries c ({ d with retryCount := d.retryCount + 1 }.scheduleRetry now error)
  | restored {d : ItemSyncCommand} : Retries c d → Retries c d.normalizeMutation

/-- The fields that a request is made of: all that a new attempt keeps. -/
structure SameRequest (c d : ItemSyncCommand) : Prop where
  type : d.type = c.type
  operation : d.operation = c.operation
  attempt : d.type ≠ .crossAccountMove → d.attempt = c.attempt
  entityId : d.entityId = c.entityId
  vaultId : d.vaultId = c.vaultId
  targetVaultId : d.targetVaultId = c.targetVaultId
  targetItemId : d.targetItemId = c.targetItemId
  category : d.category = c.category
  encryptedPayload : d.encryptedPayload = c.encryptedPayload
  favorite : d.favorite = c.favorite
  baseVersion : d.baseVersion = c.baseVersion

variable {c d : ItemSyncCommand}

theorem SameRequest.refl (c : ItemSyncCommand) : SameRequest c c := by constructor <;> intros <;> rfl

theorem SameRequest.trans {e : ItemSyncCommand} (h : SameRequest c d) (h' : SameRequest d e) : SameRequest c e where
  type := h'.type.trans h.type
  operation := h'.operation.trans h.operation
  attempt hne := (h'.attempt hne).trans (h.attempt (h'.type ▸ hne))
  entityId := h'.entityId.trans h.entityId
  vaultId := h'.vaultId.trans h.vaultId
  targetVaultId := h'.targetVaultId.trans h.targetVaultId
  targetItemId := h'.targetItemId.trans h.targetItemId
  category := h'.category.trans h.category
  encryptedPayload := h'.encryptedPayload.trans h.encryptedPayload
  favorite := h'.favorite.trans h.favorite
  baseVersion := h'.baseVersion.trans h.baseVersion

theorem sameRequest_scheduleRetry (c : ItemSyncCommand) (now : Nat) (error : String) :
    SameRequest c (c.scheduleRetry now error) := by
  unfold ItemSyncCommand.scheduleRetry
  split <;> constructor <;> intros <;> rfl

theorem sameRequest_retryCount (c : ItemSyncCommand) (retryCount : Nat) : SameRequest c { c with retryCount := retryCount } := by
  constructor <;> intros <;> rfl

/-- A move between accounts does without its attempt id. -/
theorem sameRequest_renewAttempt (c : ItemSyncCommand) (suffix : String) : SameRequest c (c.renewAttempt suffix) := by
  unfold ItemSyncCommand.renewAttempt
  split
  · next hcross =>
    constructor
    case attempt => exact fun hne => absurd hcross hne
    all_goals rfl
  · exact .refl c

theorem sameRequest_markRetrying (c : ItemSyncCommand) (now : Nat) (suffix error : String) :
    SameRequest c (c.markRetrying now suffix error) :=
  ((sameRequest_retryCount c _).trans (sameRequest_renewAttempt _ suffix)).trans (sameRequest_scheduleRetry _ now error)

theorem sameRequest_normalizeMutation (c : ItemSyncCommand) : SameRequest c c.normalizeMutation := by
  constructor <;> intros <;> rfl

theorem Retries.sameRequest (h : Retries c d) : SameRequest c d := by
  induction h with
  | refl => exact .refl c
  | marked now suffix error _ ih => exact ih.trans (sameRequest_markRetrying _ now suffix error)
  | scheduled now error _ ih => exact (ih.trans (sameRequest_retryCount _ _)).trans (sameRequest_scheduleRetry _ now error)
  | restored _ ih => exact ih.trans (sameRequest_normalizeMutation _)

theorem SameRequest.processMutation (h : SameRequest c d) (hne : c.type ≠ .crossAccountMove) :
    d.processMutation = c.processMutation := by
  have hattempt := h.attempt (h.type ▸ hne)
  simp only [ItemSyncCommand.processMutation, ItemSyncCommand.conditional, h.type, h.operation, hattempt, h.entityId,
    h.vaultId, h.targetVaultId, h.category, h.encryptedPayload, h.favorite, h.baseVersion]

theorem SameRequest.semanticRequest (h : SameRequest c d) (step : ItemStep) :
    d.semanticRequest step = c.semanticRequest step := by
  cases step <;> simp only [ItemSyncCommand.semanticRequest, h.operation, h.entityId, h.targetVaultId, h.targetItemId,
    h.category, h.encryptedPayload, h.baseVersion]

/-- **A retry sends what the failed attempt sent**, under the same key. -/
theorem Retries.itemRequest (h : Retries c d) (step : ItemStep) : d.itemRequest step = c.itemRequest step := by
  have hs := h.sameRequest
  unfold ItemSyncCommand.itemRequest
  rw [hs.type, hs.operation, hs.semanticRequest]
  by_cases hcross : c.type = .crossAccountMove
  · simp only [hcross, if_true]
  · simp only [hcross, if_false, hs.processMutation hcross]

end Bittery
