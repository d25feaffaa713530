/-
The outbound queue: `ItemSyncEngine` of `outbound-queue.ts`, its objects and its writes.

Command objects are shared: the queue of the account is an array of references, a drain and
an enqueue hold references to commands over their awaits, and a write replaces the contents of
the array by what it has found in storage. So objects and arrays have references here, and
what the methods do between two awaits is a list of effects on them.

One account; its queues in storage are one document for all engines. Storage makes copies
(`JSON.parse`, `structuredClone`), an update of it is atomic and does not fail. Of a signature
(`JSON.stringify`) only counts whether two are equal, so the value of the command stands for it.
-/
import Bittery.Client.Requests
import Bittery.Lib.Merge
import Bittery.Lib.Runs
import Mathlib.Data.List.Sort
import Mathlib.Logic.Function.Basic

namespace Bittery

open Lib

/-! ## What is assigned to a command -/

/-- The assignments to the fields of a queued command, in the source's order. -/
inductive Assignment
  | retry (now : Nat) (suffix error : String)
  | reschedule (now : Nat) (error : String)
  | encryptedConflict (copyId error : String)
  | chained (serverVersion : Nat) (copyId suffix : String)
  | preserveFailed (error : String)
  | applied
  | activated
  | failed (error : String)
  | claimed (claimId : String) (expiresAt : Nat)
  | projectedConflict
  | copyId (copyId : String)
  | entityId (realId : String)
  | rebase (version : Option Nat) (copyId suffix : String)
deriving DecidableEq, Repr

/-- Whether an attempt to send the command has failed, and it is scheduled again. -/
def Assignment.isFailedAttempt : Assignment → Bool
  | .retry .. | .reschedule .. => true
  | _ => false

namespace ItemSyncCommand

/-- What `rebaseMetadataMutation` makes of a command whose authoritative item it has got. -/
def rebaseMetadataMutation (c : ItemSyncCommand) (version : Option Nat) (copyId suffix : String) : ItemSyncCommand :=
  if c.carriesSealedCiphertext then c.markEncryptedConflict copyId "The Item changed on another device"
  else if MAX_RETRY_COUNT ≤ c.retryCount + 1 then
    { c with
      retryCount := c.retryCount + 1
      status := some .failed
      nextAttemptAt := none
      lastError := some "Conflict retry limit reached" }
  else
    match version with
    | none =>
      { c with
        retryCount := c.retryCount + 1
        status := some .failed
        lastError := some "Server returned no authoritative Item revision" }
    | some version =>
      { c with
        retryCount := c.retryCount + 1
        baseVersion := version
        attemptId := some (c.newAttemptId suffix)
        status := some .retrying
        nextAttemptAt := none
        lastError := none }

def assign (c : ItemSyncCommand) : Assignment → ItemSyncCommand
  | .retry now suffix error => c.markRetrying now suffix error
  | .reschedule now error => { c with retryCount := c.retryCount + 1 }.scheduleRetry now error
  | .encryptedConflict copyId error => c.markEncryptedConflict copyId error
  | .chained serverVersion copyId suffix => c.rebaseChainedCommand serverVersion copyId suffix
  | .preserveFailed error => { c with lastError := some ("Conflict copy failed: " ++ error) }
  | .applied => { c with status := some .pending, lastError := none }
  | .activated =>
    { c with
      status := some .pending
      lastError := none
      projectionClaimId := none
      projectionClaimExpiresAt := none }
  | .failed error => { c with status := some .failed, lastError := some error }
  | .claimed claimId expiresAt =>
    { c with projectionClaimId := some claimId, projectionClaimExpiresAt := some expiresAt }
  | .projectedConflict => { c with status := some .conflicted }
  | .copyId copyId => { c with conflictCopyId := some (c.conflictCopyId.getD copyId) }
  | .entityId realId => { c with entityId := realId }
  | .rebase version copyId suffix => c.rebaseMetadataMutation version copyId suffix

/-- **No assignment changes which operation a command is.** -/
@[simp] theorem operation_assign (c : ItemSyncCommand) (a : Assignment) : (c.assign a).operation = c.operation := by
  cases a with
  | retry now suffix error => exact (sameRequest_markRetrying c now suffix error).operation
  | reschedule now error => exact (sameRequest_scheduleRetry { c with retryCount := c.retryCount + 1 } now error).operation
  | chained serverVersion copyId suffix =>
    simp only [assign, rebaseChainedCommand]
    split
    · rfl
    · split <;> rfl
  | rebase version copyId suffix =>
    simp only [assign, rebaseMetadataMutation]
    split
    · rfl
    · split
      · rfl
      · cases version <;> rfl
  | _ => rfl

@[simp] theorem operation_normalizeMutation (c : ItemSyncCommand) : c.normalizeMutation.operation = c.operation := rfl

end ItemSyncCommand

/-! ## The engine -/

/-- A reference to a command object. Which operation an object is never changes, so the
reference has it. -/
structure CommandRef where
  object : Nat
  operation : String
deriving DecidableEq, Repr

/-- A reference to an array of command objects. -/
abbrev QueueRef := Nat

/-- A write that waits in `persistenceTail` or is going on there. -/
inductive Persistence
  /-- `writeQueue` has not begun. -/
  | write
  /-- It has taken its snapshot of the queue and of what it remembers, and storage works on it. -/
  | writing (desired : List CommandRef) (known : List ItemSyncCommand)
  /-- Storage has the document; `elsewhere` are the commands that are still to be discarded. -/
  | written (desired reconciled elsewhere : List CommandRef)
  | acknowledge (mutation : CommandRef) (serverVersion : Option Nat)
  | acknowledged (reconciled : List CommandRef) (conflicted : Option String)
  | clear
deriving DecidableEq, Repr

structure PersistenceJob where
  id : Nat
  persistence : Persistence
deriving DecidableEq, Repr

/-- What a drain or a restore does once a conflict is preserved. -/
inductive AfterConflict
  | drain (queue : QueueRef) (attempted : List String)
  | restore (conflicts : List CommandRef)
deriving DecidableEq, Repr

/-- Who has called `enqueue`. -/
inductive EnqueueCaller
  | user
  | preserveConflict (mutation : CommandRef) (after : AfterConflict)
deriving DecidableEq, Repr

/-- The awaits of the methods, with the locals that are used after them. -/
inductive EngineAwait
  | enqueueWrite (operation : String) (job : Nat) (caller : EnqueueCaller)
  | enqueueApply (operation : String) (command : CommandRef) (caller : EnqueueCaller)
  | enqueueSettle (operation : String) (job : Nat) (error : Option String) (caller : EnqueueCaller)
  | stageWrite (operation : String) (job : Nat)
  | claimWrite (claimId : String) (claimed : List ItemSyncCommand) (job : Nat)
  | activateApply (command : CommandRef)
  | activateSettle (job : Nat)
  | cancelWrite (job : Nat)
  | clearWrite (job : Nat)
  | preserveConflict (mutation : CommandRef) (after : AfterConflict)
  | preserveFailure (job : Nat) (after : AfterConflict)
  | restoreTail (job : Nat)
  | restoreGet
  | restoreLoad (document : List ItemSyncCommand)
  | restoreApply (queue : QueueRef) (index : Nat) (command : CommandRef) (changed : Bool) (conflicts : List CommandRef)
  | restoreWrite (queue : QueueRef) (conflicts : List CommandRef) (job : Nat)
  | getClient (queue : QueueRef) (firstRunnableIndex : Nat)
  | clientFailure (job : Nat)
  | request (queue : QueueRef) (attempted : List String) (mutationIndex : Nat) (mutation : CommandRef)
  | rewriteIds (queue : QueueRef) (attempted : List String) (mutationIndex : Nat) (mutation : CommandRef)
      (version : Option Nat) (job : Nat)
  | acknowledge (queue : QueueRef) (attempted : List String) (mutationIndex : Nat) (mutation : CommandRef)
      (version : Option Nat)
  | acknowledgeWrite (queue : QueueRef) (attempted : List String) (job : Nat)
  | currentItem (queue : QueueRef) (attempted : List String) (mutation : CommandRef)
  | reconcile (queue : QueueRef) (attempted : List String) (mutation : CommandRef) (version : Option Nat)
  | refusedWrite (queue : QueueRef) (attempted : List String) (mutation : CommandRef) (job : Nat)
  | retryWrite (queue : QueueRef) (attempted : List String) (job : Nat)
deriving DecidableEq, Repr

/-- The write that an await is for. -/
def EngineAwait.job : EngineAwait → Option Nat
  | .enqueueWrite _ job _ | .enqueueSettle _ job _ _ | .stageWrite _ job | .claimWrite _ _ job | .activateSettle job
  | .cancelWrite job | .clearWrite job | .preserveFailure job _ | .restoreTail job | .restoreWrite _ _ job
  | .clientFailure job | .rewriteIds _ _ _ _ _ job | .acknowledgeWrite _ _ job | .refusedWrite _ _ _ job
  | .retryWrite _ _ job => some job
  | .enqueueApply .. | .activateApply _ | .preserveConflict .. | .restoreGet | .restoreLoad _ | .restoreApply ..
  | .getClient .. | .request .. | .acknowledge .. | .currentItem .. | .reconcile .. => none

structure Engine where
  /-- The command objects. -/
  command : CommandRef → ItemSyncCommand
  operation_command : ∀ r, (command r).operation = r.operation
  nextObject : Nat
  /-- The arrays of commands. -/
  array : QueueRef → List CommandRef
  nextArray : QueueRef
  /-- `queuesByAccountId.get(accountId)`. -/
  queue : Option QueueRef
  /-- The commands of `persistedOperationIds` and `persistedCommandSignatures`. -/
  persisted : List ItemSyncCommand
  draining : Bool
  drainRequested : Bool
  /-- `persistenceTail`, the first write at its head. -/
  jobs : List PersistenceJob
  nextJob : Nat
  /-- What `persistAcknowledgement` has resolved with, by its job. -/
  conflicted : Nat → Option CommandRef
  /-- The calls that are in progress. -/
  call : Nat → Option EngineAwait

/-- A value for the objects that do not exist. -/
def noCommand (operation : String) : ItemSyncCommand :=
  ⟨"", operation, none, none, .create, "", "", none, none, none, none, none, none, 0, 0, 0, none, none, none, none, none, none⟩

/-- An engine that has just been made. -/
def newEngine : Engine where
  command r := noCommand r.operation
  operation_command _ := rfl
  nextObject := 0
  array _ := []
  nextArray := 0
  queue := none
  persisted := []
  draining := false
  drainRequested := false
  jobs := []
  nextJob := 1
  conflicted _ := none
  call _ := none

/-- What has happened, as far as a property speaks about it; the latest event comes first. -/
inductive QueueEvent
  | pushed (call : Nat) (command : ItemSyncCommand)
  /-- The operation was in the queue already. -/
  | found (operation : String)
  | resolved (call : Nat) (operation : String)
  | decided (command : ItemSyncCommand)
  | sent (operation : String)
  | attemptFailed (operation : String)
  | refused (operation : String)
  | acknowledged (operation : String)
  | cancelled (operation : String)
  | claimed (claimId : String) (commands : List ItemSyncCommand)
  | cleared (operations : List String)
deriving DecidableEq, Repr

/-- What the methods do to the engine between two awaits. -/
inductive QueueEffect
  | push (call : Nat) (command : ItemSyncCommand)
  | assign (command : CommandRef) (a : Assignment)
  /-- `queue.splice(commandIndex, 1)` of `cancel`. -/
  | cancel (queue : QueueRef) (operation : String)
  /-- `queue.splice(mutationIndex, 1)` of the drain, and its `persistAcknowledgement`. -/
  | acknowledge (queue : QueueRef) (index : Nat) (mutation : CommandRef) (serverVersion : Option Nat)
  /-- `schedulePersistence`. -/
  | persist
  /-- `queuesByAccountId.delete(accountId)`. -/
  | deleteQueue
  /-- The three maps are cleared. -/
  | clearMaps
  /-- The write of `clear()`. -/
  | clearStored
  | load (document : List ItemSyncCommand)
  | setDraining (draining : Bool)
  | requestDrain (requested : Bool)
  | note (event : QueueEvent)
deriving DecidableEq, Repr

namespace Engine

variable (e : Engine)

/-- The commands of the account, `queuesByAccountId.get(accountId) ?? []`. -/
def commands : List CommandRef := e.queue.elim [] e.array

def finished (job : Nat) : Bool := e.jobs.all fun j => j.id ≠ job

/-- An object gets a value of its operation. -/
def setCommand (r : CommandRef) (c : ItemSyncCommand) (h : c.operation = r.operation) : Engine :=
  { e with
    command := Function.update e.command r c
    operation_command := fun r' => by
      by_cases hr : r' = r
      · subst hr; simpa using h
      · simpa [Function.update_of_ne hr] using e.operation_command r' }

def setArray (a : QueueRef) (l : List CommandRef) : Engine := { e with array := Function.update e.array a l }

/-- An array under `queuesByAccountId`. -/
def newArray (l : List CommandRef) : Engine :=
  { e with
    array := Function.update e.array e.nextArray l
    nextArray := e.nextArray + 1
    queue := some e.nextArray }

/-- The contents of the account's array are replaced; there is one if there was none. -/
def setQueue (l : List CommandRef) : Engine :=
  match e.queue with
  | some a => e.setArray a l
  | none => e.newArray l

/-- A new object. -/
def new (c : ItemSyncCommand) : Engine × CommandRef :=
  ({ e.setCommand ⟨e.nextObject, c.operation⟩ c rfl with nextObject := e.nextObject + 1 }, ⟨e.nextObject, c.operation⟩)

/-- New objects for copies of commands, in order. -/
def allocate (e : Engine) : List ItemSyncCommand → Engine × List CommandRef
  | [] => (e, [])
  | c :: cs => ((allocate (e.new c).1 cs).1, (e.new c).2 :: (allocate (e.new c).1 cs).2)

/-- `sort((a, b) => a.timestamp - b.timestamp)`, which is stable. -/
def sortByTimestamp (l : List CommandRef) : List CommandRef :=
  l.insertionSort fun a b => (e.command a).timestamp ≤ (e.command b).timestamp

def push (c : ItemSyncCommand) : Engine :=
  (e.new c).1.setQueue ((e.new c).1.sortByTimestamp (e.commands ++ [(e.new c).2]))

/-- The part of `restore` that fills the queue from the document. -/
def load (document : List ItemSyncCommand) : Engine :=
  if document = [] then e
  else
    let (e', refs) := e.allocate (document.map ItemSyncCommand.normalizeMutation)
    { e'.newArray (e'.sortByTimestamp refs) with persisted := document }

/-- A write at the end of `persistenceTail`. -/
def schedule (persistence : Persistence) : Engine :=
  { e with jobs := e.jobs ++ [⟨e.nextJob, persistence⟩], nextJob := e.nextJob + 1 }

def apply : QueueEffect → Engine
  | .push _ c => e.push c
  | .assign r a => e.setCommand r ((e.command r).assign a) (by simp [e.operation_command])
  | .cancel queue operation =>
    e.setArray queue ((e.array queue).eraseIdx ((e.array queue).findIdx fun r => r.operation = operation))
  | .acknowledge queue index mutation serverVersion =>
    (e.setArray queue ((e.array queue).eraseIdx index)).schedule (.acknowledge mutation serverVersion)
  | .persist => e.schedule .write
  | .deleteQueue => { e with queue := none }
  | .clearMaps => { e with queue := none, persisted := [] }
  | .clearStored => e.schedule .clear
  | .load document => e.load document
  | .setDraining draining => { e with draining := draining }
  | .requestDrain requested => { e with drainRequested := requested }
  | .note _ => e

/-- The operations that the engine has in its queue or remembers as stored. -/
def operations : List String :=
  e.commands.map CommandRef.operation ++ e.persisted.map ItemSyncCommand.operation

/-- The events of an effect; an assignment that changes nothing decides nothing. -/
def events : QueueEffect → List QueueEvent
  | .push call c => [.decided c, .pushed call c]
  | .assign r a =>
    (if a.isFailedAttempt then [.attemptFailed r.operation] else []) ++
      if (e.command r).assign a = e.command r then [] else [.decided ((e.command r).assign a)]
  | .cancel _ operation => [.cancelled operation]
  | .acknowledge _ _ mutation _ => [.acknowledged mutation.operation]
  | .deleteQueue => [.cleared e.operations]
  | .note event => [event]
  | _ => []

def exec (effects : List QueueEffect) : Engine := effects.foldl apply e

/-! ## Writes -/

/-- The contents of the account's array after a write: `adoptReconciledQueue`. -/
def adoptReconciledQueue (reconciled : List CommandRef) : Engine :=
  match reconciled, e.queue with
  | [], none => e
  | [], some a => { e.setArray a [] with queue := none }
  | reconciled, _ => e.setQueue reconciled

def rememberPersistedCommands (reconciled : List CommandRef) : Engine :=
  { e with persisted := reconciled.map e.command }

/-- The entries that a write leaves in the document, and the commands that were acknowledged
elsewhere; `current` are the entries that it finds. -/
def mergeQueue (desired current : List CommandRef) (known : List ItemSyncCommand) : Merged CommandRef :=
  let merged := merge CommandRef.operation (fun operation => hasKey ItemSyncCommand.operation operation known)
    (fun r => (known.find? fun c => c.operation = r.operation).any fun c => e.command r ≠ c) desired current
  { merged with entries := e.sortByTimestamp merged.entries }

/-- The command that trails an acknowledged one of an item. -/
def chainedCommand (entries : List CommandRef) (entityId : String) : Option CommandRef :=
  entries.find? fun r => (e.command r).entityId = entityId && (e.command r).isActiveMutation

end Engine

end Bittery
