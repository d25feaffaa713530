/-
The commands of the outbound queue (`ItemSyncCommand` of `packages/types`), and what
`outbound-queue.ts` does to a single one: when it may be sent, how an attempt that failed is
scheduled again, and how a conflict marks it.

Numbers are natural, times in milliseconds. Random texts are arguments. Of an error only its
message counts here. `accountEmail` is left out.
-/
import Bittery.Server.Db

namespace Bittery

inductive ItemSyncCommandType
  | create | update | delete | permanentDelete | restore | move | crossAccountMove | toggleFavorite
deriving DecidableEq, Repr

inductive ItemSyncCommandStatus
  | staged | applying | pending | retrying | conflicted | failed
deriving DecidableEq, Repr

structure ItemSyncEncryptedPayload where
  encryptedData : String
  encryptionIv : String
  encryptionAlgorithm : String
  encryptionVersion : Nat
  encryptedByUserId : String
deriving DecidableEq, Repr

structure ItemSyncCommand where
  accountId : String
  id : String
  operationId : Option String
  attemptId : Option String
  type : ItemSyncCommandType
  entityId : String
  vaultId : String
  targetVaultId : Option String
  targetAccountId : Option String
  targetItemId : Option String
  category : Option ItemCategory
  encryptedPayload : Option ItemSyncEncryptedPayload
  favorite : Option Bool
  baseVersion : Nat
  timestamp : Nat
  retryCount : Nat
  status : Option ItemSyncCommandStatus
  lastError : Option String
  nextAttemptAt : Option Nat
  conflictCopyId : Option String
  projectionClaimId : Option String
  projectionClaimExpiresAt : Option Nat
deriving DecidableEq, Repr

def MAX_RETRY_COUNT : Nat := 5

def BASE_RETRY_DELAY_MS : Nat := 1000

def MAX_RETRY_DELAY_MS : Nat := 60000

namespace ItemSyncCommand

variable (c : ItemSyncCommand)

/-- `operationId ?? id`. -/
def operation : String := c.operationId.getD c.id

/-- `attemptId ?? id`. -/
def attempt : String := c.attemptId.getD c.id

def normalizeMutation : ItemSyncCommand :=
  { c with
    operationId := some c.operation
    attemptId := some c.attempt
    status := some (c.status.getD .pending) }

def isActiveMutation : Bool :=
  match c.status with
  | none | some .staged | some .applying | some .pending | some .retrying => true
  | some .conflicted | some .failed => false

def isReadyMutation (now : Nat) : Bool :=
  (match c.status with
    | none | some .pending | some .retrying => true
    | _ => false) && c.nextAttemptAt.all fun at' => at' ≤ now

/-- Whether the command has ciphertext that is sealed against one revision. -/
def carriesSealedCiphertext : Bool :=
  match c.type with
  | .create | .update | .move | .crossAccountMove => true
  | .delete | .permanentDelete | .restore | .toggleFavorite => false

def newAttemptId (suffix : String) : String := c.operation ++ ":attempt:" ++ suffix

def scheduleRetry (now : Nat) (error : String) : ItemSyncCommand :=
  if MAX_RETRY_COUNT ≤ c.retryCount then
    { c with status := some .failed, nextAttemptAt := none, lastError := some error }
  else
    { c with
      status := some .retrying
      nextAttemptAt := some (now + min (BASE_RETRY_DELAY_MS * 2 ^ (c.retryCount - 1)) MAX_RETRY_DELAY_MS)
      lastError := some error }

/-- Only a move between accounts gets a new attempt id. -/
def renewAttempt (suffix : String) : ItemSyncCommand :=
  if c.type = .crossAccountMove then { c with attemptId := some (c.newAttemptId suffix) } else c

/-- An attempt failed. -/
def markRetrying (now : Nat) (suffix error : String) : ItemSyncCommand :=
  ({ c with retryCount := c.retryCount + 1 }.renewAttempt suffix).scheduleRetry now error

def markEncryptedConflict (copyId error : String) : ItemSyncCommand :=
  { c with
    status := some .conflicted
    nextAttemptAt := none
    lastError := some error
    conflictCopyId := some (c.conflictCopyId.getD copyId) }

/-- What an acknowledgement makes of the command that trailed the acknowledged one. -/
def rebaseChainedCommand (serverVersion : Nat) (copyId suffix : String) : ItemSyncCommand :=
  if c.baseVersion = serverVersion then c
  else if c.carriesSealedCiphertext then c.markEncryptedConflict copyId "The Item changed before this edit was sent"
  else
    { c with
      baseVersion := serverVersion
      attemptId := some (c.newAttemptId suffix)
      status := some .pending
      nextAttemptAt := none }

end ItemSyncCommand

end Bittery
