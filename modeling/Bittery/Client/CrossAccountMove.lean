/-
The move of an item from one account to another (`cross-account-item-command-executor.ts`): the
one command that is not a single request. An attempt probes both servers, makes the target,
copies the attachments, and trashes and deletes the source; the queue makes another attempt
when one has failed.

A request is one step. It is answered, or executed without an answer, or not executed; an
attempt ends with the first that is not answered well, and a restart is the same. Between the
steps others edit the source, trash or restore it, and change its attachments. The two probes
are one step, since nobody else writes the target. An attachment is what it decrypts to, and
keys, upload reservations and the source's ciphertext, which the executor never reads, are
left out. A request that was executed before is answered by its idempotency key and executed
no more, so it is one that is answered or one that fails.
-/
import Bittery.Client.Commands
import Bittery.Lib.Runs

namespace Bittery

open Lib

/-! ## The command -/

/-- The fields of a command that the executor asks for. -/
structure CrossAccountMove where
  operationId : String
  entityId : String
  baseVersion : Nat
  targetVaultId : String
  targetItemId : String
  category : ItemCategory
  payload : ItemSyncEncryptedPayload
deriving DecidableEq, Repr

structure ItemSyncAcknowledgement where
  entityId : String
  etag : String
  version : Option Nat
deriving DecidableEq, Repr

inductive MoveError
  | invalid (operationId : String)
  | targetMismatch (targetItemId : String)
  | lostBoth (operationId : String)
  /-- A problem with status 412. -/
  | sourceConflict (entityId : String)
  /-- A request or a key that was needed for one. -/
  | request
deriving DecidableEq, Repr

def MoveError.message : MoveError → Option String
  | .invalid operationId => some ("Invalid cross-account move command " ++ operationId)
  | .targetMismatch targetItemId => some ("Deterministic target " ++ targetItemId ++ " does not match move")
  | .lostBoth operationId => some ("Cross-account move " ++ operationId ++ " lost both source and target Items")
  | .sourceConflict entityId => some ("Item " ++ entityId ++ " changed before its cross-account move completed")
  | .request => none

/-- The checks at the start of `executeSemanticItemCommand`. -/
def ItemSyncCommand.crossAccountMove (c : ItemSyncCommand) : Except MoveError CrossAccountMove :=
  match c.encryptedPayload, c.category, c.targetAccountId, c.targetVaultId, c.targetItemId with
  | some payload, some category, some _, some targetVaultId, some targetItemId =>
    .ok ⟨c.operation, c.entityId, c.baseVersion, targetVaultId, targetItemId, category, payload⟩
  | _, _, _, _, _ => .error (.invalid c.operation)

/-! ## The two servers -/

/-- An attachment, with what it decrypts to. -/
structure SourceAttachment where
  id : String
  content : String
deriving DecidableEq, Repr

/-- The item in the source account. -/
structure SourceItem where
  version : Nat
  deleted : Bool
  attachments : List SourceAttachment
  /-- A record: the move has put it in the trash, and nobody has written it since. -/
  trashedByMove : Bool
deriving DecidableEq, Repr

structure TargetAttachment where
  id : String
  content : String
  /-- A record: the attachment it is a copy of. -/
  source : String
deriving DecidableEq, Repr

/-- The item in the target account. -/
structure TargetItem where
  vaultId : String
  category : ItemCategory
  encryptedData : String
  encryptionIv : String
  encryptionAlgorithm : String
  attachments : List TargetAttachment
deriving DecidableEq, Repr

/-- What the move is about: the vault, the category and the ciphertext. -/
def TargetItem.Matches (t : TargetItem) (m : CrossAccountMove) : Prop :=
  t.vaultId = m.targetVaultId ∧ t.category = m.category ∧ t.encryptedData = m.payload.encryptedData ∧
  t.encryptionIv = m.payload.encryptionIv ∧ t.encryptionAlgorithm = m.payload.encryptionAlgorithm

instance (t : TargetItem) (m : CrossAccountMove) : Decidable (t.Matches m) :=
  inferInstanceAs (Decidable (_ ∧ _ ∧ _ ∧ _ ∧ _))

/-- The target has a copy of the attachment. -/
def TargetItem.HasCopy (t : TargetItem) (a : SourceAttachment) : Prop :=
  ∃ b ∈ t.attachments, b.source = a.id ∧ b.content = a.content

/-- All attachments of the source are migrated. -/
def TargetItem.HasCopies (t : TargetItem) (source : SourceItem) : Prop := ∀ a ∈ source.attachments, t.HasCopy a

/-! ## The executor -/

/-- The request that an attempt waits for. -/
inductive MoveAwait
  /-- No attempt is made. -/
  | idle
  | ended (result : Except MoveError ItemSyncAcknowledgement)
  | probing
  | listing (hasTarget : Bool)
  | creating (attachments : List SourceAttachment)
  | listingTarget (attachments : List SourceAttachment)
  | clearing (attachments : List SourceAttachment) (attachmentIds : List String)
  | migrating (attachments : List SourceAttachment)
  | trashing
  | deleting (sourceVersion : Nat)

structure MoveState where
  source : Option SourceItem
  target : Option TargetItem
  await : MoveAwait

inductive MoveInput
  /-- The queue has the command executed. -/
  | attempt
  /-- The request is executed, and its answer arrives. -/
  | answered (attachmentId : String)
  /-- The request is executed, but its answer is lost. -/
  | lost (attachmentId : String)
  | failed
  | edited
  | trashed
  | restored
  | attachmentsChanged (attachments : List SourceAttachment)
deriving DecidableEq, Repr

namespace MoveState

variable (s : MoveState)

/-- Nothing is waited for. -/
def resting : Bool :=
  match s.await with
  | .idle | .ended _ => true
  | _ => false

def throw (e : MoveError) : MoveState := { s with await := .ended (.error e) }

def acknowledge (entityId : String) (version : Nat) : MoveState :=
  { s with await := .ended (.ok ⟨entityId, "\"" ++ toString version ++ "\"", some version⟩) }

/-- Both probes are answered. -/
def probed (m : CrossAccountMove) : MoveState :=
  if s.target.any fun t => !decide (t.Matches m) then s.throw (.targetMismatch m.targetItemId)
  else match s.source with
    | none => if s.target.isNone then s.throw (.lostBoth m.operationId) else s.acknowledge m.entityId (m.baseVersion + 2)
    | some source =>
      if source.deleted then
        if source.version ≠ m.baseVersion + 1 || s.target.isNone then s.throw (.sourceConflict m.entityId)
        else { s with await := .deleting source.version }
      else if source.version ≠ m.baseVersion then s.throw (.sourceConflict m.entityId)
      else { s with await := .listing s.target.isSome }

def createTarget (m : CrossAccountMove) : MoveState :=
  { s with target := some ⟨m.targetVaultId, m.category, m.payload.encryptedData, m.payload.encryptionIv,
      m.payload.encryptionAlgorithm, []⟩ }

def setTargetAttachments (f : List TargetAttachment → List TargetAttachment) : MoveState :=
  { s with target := s.target.map fun t => { t with attachments := f t.attachments } }

/-- The attachments that are left to migrate. -/
def migrate : List SourceAttachment → MoveState
  | [] => { s with await := .trashing }
  | attachments => { s with await := .migrating attachments }

def clear (attachments : List SourceAttachment) : List String → MoveState
  | [] => s.migrate attachments
  | attachmentIds => { s with await := .clearing attachments attachmentIds }

/-- The request is executed and answered, perhaps with an error. The id is a new attachment's. -/
def answer (m : CrossAccountMove) (attachmentId : String) : Option MoveState :=
  match s.await with
  | .idle | .ended _ => none
  | .probing => some (s.probed m)
  | .listing hasTarget =>
    some (match s.source with
      | none => s.throw .request
      | some source =>
        { s with await := if hasTarget then .listingTarget source.attachments else .creating source.attachments })
  | .creating attachments =>
    some (if s.target.isSome then s.throw .request else (s.createTarget m).migrate attachments)
  | .listingTarget attachments =>
    some (match s.target with
      | none => s.throw .request
      | some target => s.clear attachments (target.attachments.map TargetAttachment.id))
  | .clearing attachments [] => some (s.migrate attachments)
  | .clearing attachments (removed :: ids) =>
    some ((s.setTargetAttachments fun l => l.filter fun b => b.id ≠ removed).clear attachments ids)
  | .migrating [] => some (s.migrate [])
  | .migrating (a :: attachments) =>
    some (if s.target.isNone then s.throw .request
      else (s.setTargetAttachments fun l => l ++ [⟨attachmentId, a.content, a.id⟩]).migrate attachments)
  | .trashing =>
    some (match s.source with
      | none => s.throw .request
      | some source =>
        if source.version ≠ m.baseVersion then s.throw .request
        else { s with
          source := some { source with version := source.version + 1, deleted := true, trashedByMove := true }
          await := .deleting (m.baseVersion + 1) })
  | .deleting version =>
    some (match s.source with
      | none => s.throw .request
      | some source =>
        if source.deleted && source.version = version then { s with source := none }.acknowledge m.entityId (version + 1)
        else s.throw .request)

/-- Somebody else writes the source. -/
def writeSource (f : SourceItem → SourceItem) : MoveState :=
  { s with source := s.source.map fun source => { f source with version := source.version + 1, trashedByMove := false } }

/-- What others do. -/
def disturb : MoveInput → Option MoveState
  | .edited => some (s.writeSource id)
  | .trashed => some (s.writeSource fun source => { source with deleted := true })
  | .restored => some (s.writeSource fun source => { source with deleted := false })
  | .attachmentsChanged attachments =>
    some { s with source := s.source.map fun source => { source with attachments } }
  | _ => none

def step (m : CrossAccountMove) : MoveInput → Option MoveState
  | .attempt => if s.resting then some { s with await := .probing } else none
  | .answered id => s.answer m id
  | .lost id => (s.answer m id).map fun t => t.throw .request
  | .failed => if s.resting then none else some (s.throw .request)
  | a => s.disturb a

/-- The steps for a command that is refused before any request. -/
def refuse (e : MoveError) : MoveInput → Option MoveState
  | .attempt => some (s.throw e)
  | a => s.disturb a

end MoveState

/-- The runs of a move, from before its first attempt. -/
def crossAccountMove (command : ItemSyncCommand) : System MoveState MoveInput where
  init s := s.await = .idle ∧ s.target = none ∧ ∀ source, s.source = some source → source.trashedByMove = false
  step s a :=
    match command.crossAccountMove with
    | .ok m => s.step m a
    | .error e => s.refuse e a

end Bittery
