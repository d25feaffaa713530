/-
The methods of `ItemSyncEngine`, one definition for each stretch between two awaits, and the
steps of any number of engines over one stored document.

An engine runs one stretch at a time, and at an await any other call can go on. What a call
waits for outside the engine (a projection, a response, storage) comes with the label, and so
do the time and the random texts.
-/
import Bittery.Client.ItemSyncEngine

namespace Bittery

open Lib

/-- What a step takes from its environment. -/
structure Surroundings where
  call : Nat
  now : Nat
  suffix : String
  copyId : String
deriving DecidableEq, Repr

/-- The outcome of `reconciler.apply`. -/
inductive Projection
  | applied
  /-- The reconciler has set the command's status to conflicted. -/
  | conflicted
  | failed (error : String)
deriving DecidableEq, Repr

inductive RequestError
  /-- 409 or 412. -/
  | conflict
  /-- 400. -/
  | badRequest (message : String)
  /-- 404. -/
  | notFound (message : String)
  /-- A network error or an unexpected one: both are handled alike. -/
  | unavailable (message : String)
deriving DecidableEq, Repr

def RequestError.isUnavailable : RequestError → Bool
  | .unavailable _ => true
  | _ => false

/-- What an await gets. -/
inductive QueueAnswer
  /-- The write is done. -/
  | written
  | projection (outcome : Projection)
  | stored
  | client (result : Except String Unit)
  /-- The version of the etag, and the id that the server has given the item. -/
  | response (result : Except RequestError (Option Nat × Option String))
  | acknowledged (result : Except String Unit)
  /-- The revision of the authoritative item. -/
  | current (result : Except String (Option Nat))
  | reconciled (result : Except String Unit)
  | copy (result : Except String (Option ItemSyncCommand))

/-- A stretch of a method: what it does, and what it waits for then; nothing if the call is over. -/
structure Stretch where
  effects : List QueueEffect
  await : Option EngineAwait

namespace Engine

/-- A stretch that goes on after some effects. -/
def andThen (effects : List QueueEffect) (rest : Engine → Stretch) (e : Engine) : Stretch :=
  let stretch := rest (e.exec effects)
  ⟨effects ++ stretch.effects, stretch.await⟩

/-- `await this.schedulePersistence(accountId)`. -/
def persistThen (await : Nat → EngineAwait) (e : Engine) : Stretch := ⟨[.persist], some (await e.nextJob)⟩

/-! ## drain -/

/-- Whether a drain sends the command at an index. -/
def isRunnable (e : Engine) (queue : QueueRef) (attempted : List String) (now index : Nat) : Bool :=
  match (e.array queue)[index]? with
  | none => false
  | some r =>
    (e.command r).isReadyMutation now && !attempted.contains r.operation &&
      !((e.array queue).take index).any fun earlier =>
        (e.command earlier).entityId = (e.command r).entityId && (e.command earlier).isActiveMutation

def findRunnableMutationIndex (e : Engine) (queue : QueueRef) (attempted : List String) (now : Nat) : Option Nat :=
  (List.range (e.array queue).length).find? (e.isRunnable queue attempted now)

/-- The beginning of `drainOnce`, if the queue has something to send. -/
def drainOnce (now : Nat) (e : Engine) : Option EngineAwait :=
  e.queue.bind fun queue => (e.findRunnableMutationIndex queue [] now).map (.getClient queue)

/-- The `do … while` of `drain`. -/
def endPass (now : Nat) (e : Engine) : Stretch :=
  if e.drainRequested then
    match e.drainOnce now with
    | some await => ⟨[.requestDrain false], some await⟩
    | none => ⟨[.requestDrain false, .setDraining false], none⟩
  else ⟨[.setDraining false], none⟩

def drain (now : Nat) (e : Engine) : Stretch :=
  if e.draining then ⟨[.requestDrain true], none⟩
  else
    match e.drainOnce now with
    | some await => ⟨[.setDraining true, .requestDrain false], some await⟩
    | none => ⟨[.requestDrain false], none⟩

/-- An attempt that gets no usable answer. -/
def attemptFailed (s : Surroundings) (queue : QueueRef) (attempted : List String) (mutation : CommandRef) (error : String)
    (e : Engine) : Stretch :=
  e.andThen [.assign mutation (.retry s.now s.suffix error)]
    (persistThen (.retryWrite queue (mutation.operation :: attempted)))

/-- The loop of `drainOnce`. -/
def drainLoop (s : Surroundings) (queue : QueueRef) (attempted : List String) (e : Engine) : Stretch :=
  match e.findRunnableMutationIndex queue attempted s.now with
  | none => e.endPass s.now
  | some index =>
    match (e.array queue)[index]? with
    | none => e.endPass s.now
    | some mutation =>
      let sent : Stretch := ⟨[.note (.sent mutation.operation)], some (.request queue attempted index mutation)⟩
      if (e.command mutation).type = .crossAccountMove then sent
      else
        match (e.command mutation).processMutation with
        | .ok _ => sent
        | .error error => e.attemptFailed s queue attempted mutation error

/-- What the drain does about a conflict, once the command is stored. -/
def afterRefusal (s : Surroundings) (queue : QueueRef) (attempted : List String) (mutation : CommandRef) (e : Engine) :
    Stretch :=
  if (e.command mutation).status = some .conflicted then ⟨[], some (.preserveConflict mutation (.drain queue attempted))⟩
  else e.drainLoop s queue attempted

/-- `rewritePendingIds`, and then the acknowledgement. -/
def responded (queue : QueueRef) (attempted : List String) (index : Nat) (mutation : CommandRef) (version : Option Nat)
    (realId : Option String) (e : Engine) : Stretch :=
  let tempId := (e.command mutation).entityId
  match realId with
  | none => ⟨[], some (.acknowledge queue attempted index mutation version)⟩
  | some realId =>
    if (e.command mutation).type ≠ .create ∨ realId = tempId then
      ⟨[], some (.acknowledge queue attempted index mutation version)⟩
    else
      match e.commands.filter fun r => (e.command r).entityId = tempId with
      | [] => ⟨[], some (.acknowledge queue attempted index mutation version)⟩
      | touched => e.andThen (touched.map fun r => .assign r (.entityId realId))
          (persistThen (.rewriteIds queue attempted index mutation version))

/-- A 404 of an edit is a conflict; a 404 of another command and a 400 end it. -/
def rejected (s : Surroundings) (queue : QueueRef) (attempted : List String) (mutation : CommandRef) (notFound : Bool)
    (message : String) (e : Engine) : Stretch :=
  let type := (e.command mutation).type
  let a : Assignment :=
    if notFound ∧ (type = .update ∨ type = .move ∨ type = .crossAccountMove) then .encryptedConflict s.copyId message
    else .failed message
  e.andThen [.assign mutation a] (persistThen (.refusedWrite queue attempted mutation))

/-- The `catch` of the loop. -/
def requestFailed (s : Surroundings) (queue : QueueRef) (attempted : List String) (mutation : CommandRef)
    (error : RequestError) (e : Engine) : Stretch :=
  match error with
  | .conflict => ⟨[.note (.refused mutation.operation)], some (.currentItem queue attempted mutation)⟩
  | .badRequest message => e.rejected s queue attempted mutation false message
  | .notFound message => e.rejected s queue attempted mutation true message
  | .unavailable message => e.attemptFailed s queue attempted mutation message

/-- The reconciler has acknowledged: the command leaves the queue. -/
def acknowledge (queue : QueueRef) (attempted : List String) (index : Nat) (mutation : CommandRef) (version : Option Nat)
    (e : Engine) : Stretch :=
  ⟨[.acknowledge queue index mutation version], some (.acknowledgeWrite queue attempted e.nextJob)⟩

def clientFailed (s : Surroundings) (queue : QueueRef) (firstRunnableIndex : Nat) (error : String) (e : Engine) : Stretch :=
  match (e.array queue)[firstRunnableIndex]? with
  | none => e.endPass s.now
  | some mutation =>
    e.andThen [.assign mutation (.retry s.now s.suffix error)] (persistThen .clientFailure)

/-! ## preserveConflict and enqueue -/

/-- The conflicts that `restore` has found, one after another. -/
def preserveNext : List CommandRef → Stretch
  | [] => ⟨[], none⟩
  | conflict :: conflicts => ⟨[], some (.preserveConflict conflict (.restore conflicts))⟩

def afterConflict (s : Surroundings) (e : Engine) : AfterConflict → Stretch
  | .drain queue attempted => e.drainLoop s queue attempted
  | .restore conflicts => preserveNext conflicts

/-- The `catch` of `preserveConflict`. -/
def preserveFailed (mutation : CommandRef) (after : AfterConflict) (error : String) (e : Engine) : Stretch :=
  e.andThen [.assign mutation (.preserveFailed error)] (persistThen fun job => .preserveFailure job after)

/-- `enqueue` resolves. -/
def enqueued (s : Surroundings) (caller : EnqueueCaller) (event : QueueEvent) (e : Engine) : Stretch :=
  match caller with
  | .user => ⟨[.note event], none⟩
  | .preserveConflict _ after => e.andThen [.note event] fun e => e.afterConflict s after

/-- `enqueue` rejects. -/
def enqueueFailed (caller : EnqueueCaller) (error : String) (e : Engine) : Stretch :=
  match caller with
  | .user => ⟨[], none⟩
  | .preserveConflict mutation after => e.preserveFailed mutation after error

/-- A command that has ended already stays as it is. -/
def terminalStatus (m : ItemSyncCommand) : Option ItemSyncCommandStatus :=
  match m.status with
  | some .conflicted => some .conflicted
  | some .failed => some .failed
  | _ => none

/-- The command as `enqueue` puts it into the queue. -/
def enqueueing (m : ItemSyncCommand) : ItemSyncCommand :=
  ItemSyncCommand.normalizeMutation { m with status := some ((terminalStatus m).getD .applying) }

def enqueue (s : Surroundings) (m : ItemSyncCommand) (caller : EnqueueCaller) (e : Engine) : Stretch :=
  if e.commands.any fun r => r.operation = m.operation then e.enqueued s caller (.found m.operation)
  else e.andThen [.push s.call (enqueueing m)] (persistThen fun job => .enqueueWrite m.operation job caller)

/-- The command is stored: it is projected, if it is there and can still be sent. -/
def enqueueWritten (s : Surroundings) (operation : String) (caller : EnqueueCaller) (e : Engine) : Stretch :=
  match e.commands.find? fun r => r.operation = operation with
  | none => e.enqueued s caller (.resolved s.call operation)
  | some durableCommand =>
    if (e.command durableCommand).status = some .conflicted ∨ (e.command durableCommand).status = some .failed then
      e.enqueued s caller (.resolved s.call operation)
    else ⟨[], some (.enqueueApply operation durableCommand caller)⟩

def enqueueApplied (operation : String) (durableCommand : CommandRef) (caller : EnqueueCaller) (outcome : Projection)
    (e : Engine) : Stretch :=
  match outcome with
  | .failed error => e.andThen [.assign durableCommand (.failed error)]
      (persistThen fun job => .enqueueSettle operation job (some error) caller)
  | .applied => e.andThen [.assign durableCommand .applied]
      (persistThen fun job => .enqueueSettle operation job none caller)
  | .conflicted => e.andThen [.assign durableCommand .projectedConflict, .assign durableCommand .applied]
      (persistThen fun job => .enqueueSettle operation job none caller)

def preserved (s : Surroundings) (mutation : CommandRef) (after : AfterConflict)
    (result : Except String (Option ItemSyncCommand)) (e : Engine) : Stretch :=
  match result with
  | .error error => e.preserveFailed mutation after error
  | .ok none => e.afterConflict s after
  | .ok (some copy) => e.enqueue s copy (.preserveConflict mutation after)

/-! ## Staged commands -/

def stage (s : Surroundings) (m : ItemSyncCommand) (claim : Option (String × Nat)) (e : Engine) : Stretch :=
  if e.commands.any fun r => r.operation = m.operation then ⟨[.note (.found m.operation)], none⟩
  else
    let staged : ItemSyncCommand :=
      { m with
        status := some .staged
        projectionClaimId := claim.map Prod.fst
        projectionClaimExpiresAt := claim.map Prod.snd }
    e.andThen [.push s.call staged.normalizeMutation] (persistThen fun job => .stageWrite m.operation job)

/-- Whether a claim can be laid on a command. -/
def isClaimable (e : Engine) (now : Nat) (r : CommandRef) : Bool :=
  (e.command r).status = some .staged &&
    !((e.command r).projectionClaimId.any (· ≠ "") && (e.command r).projectionClaimExpiresAt.all fun at' => now < at')

def claimStaged (s : Surroundings) (claimId : String) (leaseMs : Nat) (e : Engine) : Stretch :=
  match e.commands.filter (e.isClaimable s.now) with
  | [] => ⟨[], none⟩
  | refs =>
    let claim : Assignment := .claimed claimId (s.now + leaseMs)
    e.andThen (refs.map fun r => .assign r claim)
      (persistThen (.claimWrite claimId (refs.map fun r => (e.command r).assign claim)))

/-- The staged command that a claim is laid on, and its place in the queue. -/
def claimedCommand (e : Engine) (operation claimId : String) : Option CommandRef :=
  (e.commands.find? fun r => r.operation = operation).filter fun r =>
    (e.command r).status = some .staged && (e.command r).projectionClaimId = some claimId

def activate (operation claimId : String) (e : Engine) : Stretch :=
  match e.claimedCommand operation claimId with
  | none => ⟨[], none⟩
  | some r => ⟨[], some (.activateApply r)⟩

def activateApplied (command : CommandRef) (outcome : Projection) (e : Engine) : Stretch :=
  match outcome with
  | .failed error => e.andThen [.assign command (.failed error)] (persistThen .activateSettle)
  | .applied => e.andThen [.assign command .activated] (persistThen .activateSettle)
  | .conflicted => e.andThen [.assign command .projectedConflict, .assign command .activated] (persistThen .activateSettle)

def cancel (operation claimId : String) (e : Engine) : Stretch :=
  match e.queue, e.claimedCommand operation claimId with
  | some queue, some _ =>
    e.andThen [.cancel queue operation] (persistThen .cancelWrite)
  | _, _ => ⟨[], none⟩

/-! ## restore and clear -/

/-- The next command from an index on that `restore` projects again. -/
def nextToRestore (e : Engine) (queue : QueueRef) (index : Nat) : Option (Nat × CommandRef) :=
  ((e.array queue).zipIdx.map Prod.swap).find? fun (i, r) =>
    index ≤ i && (e.command r).status ≠ some .staged && (e.command r).status ≠ some .conflicted &&
      (e.command r).status ≠ some .failed

/-- A queue is restored; the iteration over the map finds an array that was put there since. -/
def restoredQueue (queue : QueueRef) (conflicts : List CommandRef) (e : Engine) : Stretch :=
  match e.queue.filter (· ≠ queue) with
  | none => preserveNext conflicts
  | some queue' =>
    match e.nextToRestore queue' 0 with
    | some (index, r) => ⟨[], some (.restoreApply queue' index r false conflicts)⟩
    | none => preserveNext conflicts

/-- The loop of `restore` over the commands. -/
def restoreLoop (queue : QueueRef) (index : Nat) (changed : Bool) (conflicts : List CommandRef) (e : Engine) : Stretch :=
  match e.nextToRestore queue index with
  | some (index, r) => ⟨[], some (.restoreApply queue index r changed conflicts)⟩
  | none =>
    if changed then e.persistThen (.restoreWrite queue conflicts)
    else e.restoredQueue queue conflicts

def restoreApplied (s : Surroundings) (queue : QueueRef) (index : Nat) (command : CommandRef) (changed : Bool)
    (conflicts : List CommandRef) (outcome : Projection) (e : Engine) : Stretch :=
  match outcome with
  | .failed error =>
    e.andThen [.assign command (.failed error)] (restoreLoop queue (index + 1) true conflicts)
  | .conflicted =>
    e.andThen [.assign command .projectedConflict, .assign command (.copyId s.copyId)]
      (restoreLoop queue (index + 1) true (conflicts ++ [command]))
  | .applied =>
    if (e.command command).status = some .conflicted then
      e.andThen [.assign command (.copyId s.copyId)] (restoreLoop queue (index + 1) true (conflicts ++ [command]))
    else if (e.command command).status = some .applying then
      e.andThen [.assign command .applied] (restoreLoop queue (index + 1) true conflicts)
    else e.restoreLoop queue (index + 1) changed conflicts

/-- The document is read: the queue is filled and projected. -/
def restoreLoaded (document : List ItemSyncCommand) (e : Engine) : Stretch :=
  e.andThen [.load document] fun e =>
    match e.queue with
    | none => preserveNext []
    | some queue => e.restoreLoop queue 0 false []

/-- `clear(accountId)`, or `clear()`. -/
def clear (account : Bool) (e : Engine) : Stretch :=
  if account then e.andThen [.deleteQueue] (persistThen .clearWrite)
  else ⟨[.note (.cleared e.operations), .clearMaps, .clearStored], some (.clearWrite e.nextJob)⟩

/-! ## The steps of an engine -/

/-- `enqueue` has stored how the projection went. -/
def enqueueSettled (s : Surroundings) (operation : String) (error : Option String) (caller : EnqueueCaller) (e : Engine) :
    Stretch :=
  match error with
  | none => e.enqueued s caller (.resolved s.call operation)
  | some error => e.enqueueFailed caller error

def clientAnswered (s : Surroundings) (queue : QueueRef) (firstRunnableIndex : Nat) (result : Except String Unit)
    (e : Engine) : Stretch :=
  match result with
  | .ok () => e.drainLoop s queue []
  | .error error => e.clientFailed s queue firstRunnableIndex error

def requestAnswered (s : Surroundings) (queue : QueueRef) (attempted : List String) (index : Nat) (mutation : CommandRef)
    (result : Except RequestError (Option Nat × Option String)) (e : Engine) : Stretch :=
  match result with
  | .ok (version, realId) => e.responded queue attempted index mutation version realId
  | .error error => e.requestFailed s queue attempted mutation error

def acknowledgeAnswered (s : Surroundings) (queue : QueueRef) (attempted : List String) (index : Nat)
    (mutation : CommandRef) (version : Option Nat) (result : Except String Unit) (e : Engine) : Stretch :=
  match result with
  | .ok () => e.acknowledge queue attempted index mutation version
  | .error error => e.attemptFailed s queue attempted mutation error

/-- The acknowledgement is stored: a command that it has pushed into conflict is preserved. -/
def acknowledgeWritten (s : Surroundings) (queue : QueueRef) (attempted : List String) (job : Nat) (e : Engine) : Stretch :=
  match e.conflicted job with
  | some mutation => ⟨[], some (.preserveConflict mutation (.drain queue attempted))⟩
  | none => e.drainLoop s queue attempted

/-- `rebaseMetadataMutation` has got the item, or has not. -/
def currentAnswered (s : Surroundings) (queue : QueueRef) (attempted : List String) (mutation : CommandRef)
    (result : Except String (Option Nat)) (e : Engine) : Stretch :=
  match result with
  | .ok version => ⟨[], some (.reconcile queue attempted mutation version)⟩
  | .error error =>
    e.andThen [.assign mutation (.reschedule s.now error)] (persistThen (.refusedWrite queue attempted mutation))

def reconcileAnswered (s : Surroundings) (queue : QueueRef) (attempted : List String) (mutation : CommandRef)
    (version : Option Nat) (result : Except String Unit) (e : Engine) : Stretch :=
  let a : Assignment :=
    match result with
    | .ok () => .rebase version s.copyId s.suffix
    | .error error => .reschedule s.now error
  e.andThen [.assign mutation a] (persistThen (.refusedWrite queue attempted mutation))

/-- A call goes on after an await; `document` is what is stored. -/
def resume (s : Surroundings) (document : List ItemSyncCommand) (e : Engine) : EngineAwait → QueueAnswer → Option Stretch
  | .enqueueWrite operation _ caller, .written => some (e.enqueueWritten s operation caller)
  | .enqueueApply operation command caller, .projection outcome => some (e.enqueueApplied operation command caller outcome)
  | .enqueueSettle operation _ error caller, .written => some (e.enqueueSettled s operation error caller)
  | .stageWrite operation _, .written => some ⟨[.note (.resolved s.call operation)], none⟩
  | .claimWrite claimId claimed _, .written => some ⟨[.note (.claimed claimId claimed)], none⟩
  | .activateApply command, .projection outcome => some (e.activateApplied command outcome)
  | .activateSettle _, .written => some ⟨[], none⟩
  | .cancelWrite _, .written => some ⟨[], none⟩
  | .clearWrite _, .written => some ⟨[], none⟩
  | .preserveConflict mutation after, .copy result => some (e.preserved s mutation after result)
  | .preserveFailure _ after, .written => some (e.afterConflict s after)
  | .restoreTail _, .written => some ⟨[.clearMaps], some .restoreGet⟩
  | .restoreGet, .stored => some ⟨[], some (.restoreLoad document)⟩
  | .restoreLoad document, .stored => some (e.restoreLoaded document)
  | .restoreApply queue index command changed conflicts, .projection outcome =>
    some (e.restoreApplied s queue index command changed conflicts outcome)
  | .restoreWrite queue conflicts _, .written => some (e.restoredQueue queue conflicts)
  | .getClient queue first, .client result => some (e.clientAnswered s queue first result)
  | .clientFailure _, .written => some (e.endPass s.now)
  | .request queue attempted index mutation, .response result =>
    some (e.requestAnswered s queue attempted index mutation result)
  | .rewriteIds queue attempted index mutation version _, .written =>
    some ⟨[], some (.acknowledge queue attempted index mutation version)⟩
  | .acknowledge queue attempted index mutation version, .acknowledged result =>
    some (e.acknowledgeAnswered s queue attempted index mutation version result)
  | .acknowledgeWrite queue attempted job, .written => some (e.acknowledgeWritten s queue attempted job)
  | .currentItem queue attempted mutation, .current result => some (e.currentAnswered s queue attempted mutation result)
  | .reconcile queue attempted mutation version, .reconciled result =>
    some (e.reconcileAnswered s queue attempted mutation version result)
  | .refusedWrite queue attempted mutation _, .written => some (e.afterRefusal s queue attempted mutation)
  | .retryWrite queue attempted _, .written => some (e.drainLoop s queue attempted)
  | _, _ => none

end Engine

/-! ## Engines over one document -/

inductive QueueCall
  | enqueue (mutation : ItemSyncCommand)
  | stage (mutation : ItemSyncCommand) (claim : Option (String × Nat))
  | claimStaged (claimId : String) (leaseMs : Nat)
  | activate (operation claimId : String)
  | cancel (operation claimId : String)
  | restore
  | drain
  /-- Of the account, or of all accounts. -/
  | clear (account : Bool)
deriving DecidableEq, Repr

/-- A method up to its first await. -/
def Engine.begin (s : Surroundings) (e : Engine) : QueueCall → Stretch
  | .enqueue m => e.enqueue s m .user
  | .stage m claim => e.stage s m claim
  | .claimStaged claimId leaseMs => e.claimStaged s claimId leaseMs
  | .activate operation claimId => e.activate operation claimId
  | .cancel operation claimId => e.cancel operation claimId
  | .restore => ⟨[], some (.restoreTail (e.nextJob - 1))⟩
  | .drain => e.drain s.now
  | .clear account => e.clear account

inductive QueueLabel (ι : Type)
  | call (engine : ι) (method : QueueCall) (s : Surroundings)
  | resume (engine : ι) (answer : QueueAnswer) (s : Surroundings)
  /-- The first write of an engine goes on. -/
  | persist (engine : ι) (s : Surroundings)
  /-- The context of an engine ends; the next one there makes a new engine. -/
  | crash (engine : ι)

structure QueueState (ι : Type) where
  document : List ItemSyncCommand
  engine : ι → Engine
  log : List QueueEvent
  /-- The operations that have left the document. -/
  left : List String

namespace QueueState

variable {ι : Type} [DecidableEq ι] (q : QueueState ι)

def setEngine (i : ι) (e : Engine) : QueueState ι := { q with engine := Function.update q.engine i e }

def applyEffect (i : ι) (q : QueueState ι) (x : QueueEffect) : QueueState ι :=
  { q.setEngine i ((q.engine i).apply x) with log := (q.engine i).events x ++ q.log }

/-- A stretch of a call. -/
def runStretch (i : ι) (call : Nat) (stretch : Stretch) : QueueState ι :=
  let q' := stretch.effects.foldl (applyEffect i) q
  q'.setEngine i { q'.engine i with call := Function.update (q'.engine i).call call stretch.await }

/-- An update of the document. -/
def store (document : List ItemSyncCommand) : QueueState ι :=
  { q with
    document := document
    left := (q.document.map ItemSyncCommand.operation).filter
      (fun operation => !hasKey ItemSyncCommand.operation operation document) ++ q.left }

/-- The updater of `writeQueue`. -/
def updateQueue (i : ι) (desired : List CommandRef) (known : List ItemSyncCommand) (id : Nat) (rest : List PersistenceJob) :
    QueueState ι :=
  let (e, current) := (q.engine i).allocate q.document
  let merged := e.mergeQueue desired current known
  (q.store (merged.entries.map e.command)).setEngine i
    { e with jobs := ⟨id, .written desired merged.entries merged.gone⟩ :: rest }

/-- The updater of `persistAcknowledgement`. -/
def updateAcknowledged (i : ι) (mutation : CommandRef) (serverVersion : Option Nat) (s : Surroundings) (id : Nat)
    (rest : List PersistenceJob) : QueueState ι :=
  let (e, current) := (q.engine i).allocate q.document
  let next := current.filter fun r => r.operation ≠ mutation.operation
  let jobs (conflicted : Option String) : List PersistenceJob := ⟨id, .acknowledged next conflicted⟩ :: rest
  match serverVersion, e.chainedCommand next ((q.engine i).command mutation).entityId with
  | some serverVersion, some chained =>
    let a : Assignment := .chained serverVersion s.copyId s.suffix
    let conflicted :=
      if ((e.command chained).assign a).status = some .conflicted then some chained.operation else none
    let q' := (q.setEngine i e).applyEffect i (.assign chained a)
    (q'.store (next.map (q'.engine i).command)).setEngine i { q'.engine i with jobs := jobs conflicted }
  | _, _ => (q.store (next.map e.command)).setEngine i { e with jobs := jobs none }

/-- The continuation of a write, once it is through. -/
def adopt (i : ι) (reconciled : List CommandRef) (drainRequested : Bool) (rest : List PersistenceJob) : Engine :=
  let e := q.engine i
  { (e.adoptReconciledQueue reconciled).rememberPersistedCommands reconciled with
    drainRequested := e.drainRequested || drainRequested
    jobs := rest }

/-- The first write of an engine goes on by one await. -/
def persist (i : ι) (s : Surroundings) : Option (QueueState ι) :=
  let e := q.engine i
  match e.jobs with
  | [] => none
  | ⟨id, .write⟩ :: rest => some (q.setEngine i { e with jobs := ⟨id, .writing e.commands e.persisted⟩ :: rest })
  | ⟨id, .writing desired known⟩ :: rest => some (q.updateQueue i desired known id rest)
  | ⟨id, .written desired reconciled (_ :: elsewhere)⟩ :: rest =>
    some (q.setEngine i { e with jobs := ⟨id, .written desired reconciled elsewhere⟩ :: rest })
  | ⟨_, .written desired reconciled []⟩ :: rest =>
    some (q.setEngine i (q.adopt i reconciled (reconciled.any fun r => !hasKey CommandRef.operation r.operation desired) rest))
  | ⟨id, .acknowledge mutation serverVersion⟩ :: rest => some (q.updateAcknowledged i mutation serverVersion s id rest)
  | ⟨id, .acknowledged reconciled conflicted⟩ :: rest =>
    some (q.setEngine i { q.adopt i reconciled false rest with
      conflicted := Function.update e.conflicted id
        (conflicted.bind fun operation => reconciled.find? fun r => r.operation = operation) })
  | ⟨_, .clear⟩ :: rest =>
    some { (q.store []).setEngine i { e with jobs := rest } with
      log := .cleared (q.document.map ItemSyncCommand.operation) :: q.log }

def step : QueueLabel ι → Option (QueueState ι)
  | .call i method s =>
    if ((q.engine i).call s.call).isNone then some (q.runStretch i s.call ((q.engine i).begin s method)) else none
  | .resume i answer s =>
    match (q.engine i).call s.call with
    | none => none
    | some await =>
      if await.job.all (q.engine i).finished then
        ((q.engine i).resume s q.document await answer).map (q.runStretch i s.call)
      else none
  | .persist i s => q.persist i s
  | .crash i => some (q.setEngine i newEngine)

end QueueState

/-- Any number of engines over one document. -/
def outboundQueue (ι : Type) [DecidableEq ι] (document : List ItemSyncCommand) : System (QueueState ι) (QueueLabel ι) where
  init q := q = ⟨document, fun _ => newEngine, [], []⟩
  step q a := q.step a

end Bittery
