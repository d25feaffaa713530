/-
The sync manager of the extension: `background/sync-manager.ts`, with the part of
`background/services/sync-cache-service.ts` that applies the events of a catch-up.

Each `connect` is an attempt of its own, which goes on at its awaits; how an await ends comes
with the label, also for an attempt whose controller has been aborted. A module variable is
read where the source reads it, so a catch-up that runs while another account is connected
to finds the other account. Of what a step asks the account store, the server of an account
is fixed, and the account that a connection is for comes with the label.

A cursor is the sequence number its event id stands for, and 0 is the empty id. The feed of an
account is what its server has for it; a page and a baseline are what the feed has then.
Notices to the popup, the fallback account of the session and the desktop cache are left out,
as is a restart of the worker.
-/
import Bittery.Client.CatchUp
import Bittery.Client.SyncManager

namespace Bittery

open Lib

/-- The account and server of a connection, which a stored cursor is filed under. -/
structure SyncConnection where
  accountId : String
  serverUrl : String
deriving DecidableEq, Repr

/-- A cursor, and whose feed it comes from (a record). -/
structure FeedCursor where
  id : Nat
  feed : SyncConnection
deriving DecidableEq, Repr

inductive SseFrame
  | sync
  | sessionRevoked
  | other
deriving DecidableEq, Repr

/-- The loop of a catch-up, with the account that its client is for. -/
structure ExtensionCatchUp where
  accountId : String
  cursor : FeedCursor
deriving DecidableEq, Repr

/-- What `catchUpMissedEvents` waits for. -/
inductive CatchUpAwait
  | getLastSyncCursor (scope : SyncConnection)
  | initializeSyncBaseline (accountId : String) (lastCursor : Option FeedCursor)
  | storeBaseline (scope : SyncConnection) (cursor : FeedCursor)
  | client (accountId : Option String) (cursor : FeedCursor)
  | changes (l : ExtensionCatchUp)
  | travelMode (l : ExtensionCatchUp) (page : CatchUpPage) (e : SyncEvent) (rest : List SyncEvent)
  | candidates (l : ExtensionCatchUp) (page : CatchUpPage) (e : SyncEvent) (rest : List SyncEvent)
  /-- The candidates, those of them that are still to come, and whether one was applied to. -/
  | deltas (l : ExtensionCatchUp) (page : CatchUpPage) (e : SyncEvent) (rest : List SyncEvent)
      (candidates left : List String) (applied : Bool)
  | clearItemCaches (l : ExtensionCatchUp) (page : CatchUpPage) (e : SyncEvent) (rest : List SyncEvent)
      (candidates : List String)
  | refresh (l : ExtensionCatchUp)
  | storeCursor (scope : SyncConnection) (cursor : FeedCursor)
deriving DecidableEq, Repr

/-- What follows a catch-up: the rest of `connect`, or of the frames of a chunk. -/
inductive AfterCatchUp
  | push
  | frames (rest : List SseFrame)
deriving DecidableEq, Repr

inductive ConnectAwait
  | resolveConnectionContext
  | events
  | clearAlarm
  /-- A catch-up, with the connection it began with (a record). -/
  | catchUp (began : SyncConnection) (await : CatchUpAwait) (next : AfterCatchUp)
  | push
  | read
  | dispatch (rest : List SseFrame)
  | ended
deriving DecidableEq, Repr

structure ConnectAttempt where
  aborted : Bool
  await : ConnectAwait
deriving DecidableEq, Repr

/-- What a call of `connect` has: no stream yet, or an open one. -/
def ConnectAttempt.stage (t : ConnectAttempt) : Option Bool :=
  if t.aborted then none
  else
    match t.await with
    | .resolveConnectionContext | .events => some false
    | .clearAlarm | .catchUp _ _ _ | .push | .read | .dispatch _ => some true
    | .ended => none

inductive DeltaOutcome
  | applied
  | noToken
  | failed
deriving DecidableEq, Repr

/-- How an await ends. -/
inductive ConnectAnswer
  | resolved
  | failed (abort : Bool)
  | context (accountId : Option String)
  | response (ok hasBody : Bool)
  | chunk (frames : List SseFrame)
  | done
  /-- The cursor that was there is kept, or the committed one of the replica. -/
  | initialized (committed : Option (Option Nat))
  | client (available : Bool)
  | page (page : CatchUpPage)
  /-- The account a travel mode event was handled for. -/
  | travelMode (accountId : Option String)
  | candidates (accountIds : List String)
  | delta (outcome : DeltaOutcome)
  /-- The accounts whose replica was refreshed. -/
  | accounts (accountIds : List String)
deriving DecidableEq, Repr

def ConnectAnswer.isChunk : ConnectAnswer → Bool
  | .chunk _ => true
  | _ => false

/-- An event that was applied to the replica of an account (a record). -/
structure AppliedEvent where
  feed : String
  accountId : String
  seq : Nat
deriving DecidableEq, Repr

structure ExtensionSync where
  abortController : Option Nat
  connectionStatus : ConnectionStatus
  reconnectAttempt : Nat
  /-- `syncConnectionAccountId` and `syncConnectionServerUrl`, which are set together. -/
  connection : Option SyncConnection
  syncBaselineValidated : Bool
  revoked : Bool
  /-- The delay of the reconnect alarm, while it is set. -/
  alarm : Option Nat
  /-- The alarms that went off and that the worker has not handled yet. -/
  alarmEvents : Nat
  attempts : List ConnectAttempt
  cursors : SyncConnection → Option FeedCursor
  activeAccount : Option String
  /-- The feed of each account, and the newest number of its server. -/
  feed : String → List Nat
  head : String → Nat
  /-- Records, as are the full refreshes and clears: up to which event they cover an account. -/
  applied : List AppliedEvent
  snapshots : List (String × Nat)
  /-- Whether `disconnect` was called after the last `connect` of a caller (a record). -/
  stopped : Bool

inductive ExtensionSyncLabel
  | connect
  | initializeSync
  | disconnect (suppressReconnect : Bool)
  | cleanupSync
  | alarmGoesOff
  | handleSyncReconnectAlarm
  | resume (attempt : Nat) (answer : ConnectAnswer)
  | setActiveAccount (accountId : Option String)
  /-- The server of an account has a new event for it. -/
  | emit (accountId : String) (seq : Nat)
deriving DecidableEq, Repr

/-- What the feed of an account answers after a cursor. -/
def CatchUpPage.isOf (page : CatchUpPage) (feed : List Nat) (head since : Nat) : Bool :=
  decide (page.nextCursor since ≤ max head since) &&
    (page.requiresFullRefresh ||
      page.events.map SyncEvent.seq = feed.filter fun seq => decide (since < seq) && decide (seq ≤ page.nextCursor since))

namespace ExtensionSync

variable (q : ExtensionSync) (serverUrlOf : String → String)

def setStatus (status : ConnectionStatus) : ExtensionSync := { q with connectionStatus := status }

def scheduleReconnect : ExtensionSync :=
  if q.revoked then q
  else { q with alarm := some (min (1000 * 2 ^ q.reconnectAttempt) 30000), reconnectAttempt := q.reconnectAttempt + 1 }

/-! ## The catch-up -/

/-- The catch-up has ended with a cursor. Without a connection, there is no key to store it under. -/
def finish (l : ExtensionCatchUp) : Option CatchUpAwait := q.connection.map (.storeCursor · l.cursor)

/-- The cursor after a page. -/
def nextCursor (l : ExtensionCatchUp) (page : CatchUpPage) : FeedCursor :=
  match page.cursor.or (page.events.getLast?.map (·.seq)) with
  | some id => ⟨id, l.accountId, serverUrlOf l.accountId⟩
  | none => l.cursor

def pageDone (l : ExtensionCatchUp) (page : CatchUpPage) : Option CatchUpAwait :=
  let cursor := nextCursor serverUrlOf l page
  if page.hasMore ∧ cursor.id ≠ l.cursor.id then some (.changes { l with cursor := cursor })
  else q.finish { l with cursor := cursor }

def nextEvent (l : ExtensionCatchUp) (page : CatchUpPage) : List SyncEvent → Option CatchUpAwait
  | [] => q.pageDone serverUrlOf l page
  | e :: rest =>
    if e.eventType = .travelModeUpdated then some (.travelMode l page e rest) else some (.candidates l page e rest)

/-- The candidates that are still to come; when none was applied to, the caches of all are cleared. -/
def nextDelta (l : ExtensionCatchUp) (page : CatchUpPage) (e : SyncEvent) (rest : List SyncEvent)
    (candidates : List String) (applied : Bool) : List String → Option CatchUpAwait
  | [] => if applied then q.nextEvent serverUrlOf l page rest else some (.clearItemCaches l page e rest candidates)
  | left => some (.deltas l page e rest candidates left applied)

/-- The active account, or else those that the account list gives for the event. -/
def resolveCandidateAccountIds (accountIds : List String) : List String := q.activeAccount.elim accountIds ([·])

def record (l : ExtensionCatchUp) (e : SyncEvent) (accountId : String) : ExtensionSync :=
  { q with applied := ⟨l.accountId, accountId, e.seq⟩ :: q.applied }

/-- The replicas of some accounts are what their servers have now. -/
def cover (accountIds : List String) : ExtensionSync :=
  { q with snapshots := accountIds.map (fun accountId => (accountId, q.head accountId)) ++ q.snapshots }

def store (scope : SyncConnection) (cursor : FeedCursor) : ExtensionSync :=
  { q with cursors := Function.update q.cursors scope (some cursor) }

/-- Once the baseline is validated: `getClientForAccountId`, for the account of the connection. -/
def getClient (cursor : FeedCursor) : CatchUpAwait := .client (q.connection.map (·.accountId)) cursor

/-- `catchUpMissedEvents`, from one await to the next; nothing when it has ended. -/
def catchUpStep : CatchUpAwait → ConnectAnswer → Option (ExtensionSync × Option CatchUpAwait)
  | .getLastSyncCursor scope, .resolved =>
    match q.cursors scope, q.syncBaselineValidated with
    | some lastCursor, true => some (q, some (q.getClient lastCursor))
    | lastCursor, _ => some (q, q.connection.map fun c => .initializeSyncBaseline c.accountId lastCursor)
  | .initializeSyncBaseline accountId lastCursor, .initialized committed =>
    match committed, lastCursor with
    | none, none => none
    | none, some lastCursor => some (q, q.connection.map (.storeBaseline · lastCursor))
    | some committed, _ =>
      if committed.getD 0 ≤ q.head accountId then
        some ({ q with snapshots := (accountId, committed.getD 0) :: q.snapshots },
          q.connection.map (.storeBaseline · ⟨committed.getD 0, accountId, serverUrlOf accountId⟩))
      else none
  | .storeBaseline scope cursor, .resolved =>
    some ({ q.store scope cursor with syncBaselineValidated := true }, some (q.getClient cursor))
  | .client accountId cursor, .client available =>
    some (q, if available then (accountId.or q.activeAccount).map fun accountId => .changes ⟨accountId, cursor⟩ else none)
  | .changes l, .page page =>
    if page.isOf (q.feed l.accountId) (q.head l.accountId) l.cursor.id then
      some (q, if page.requiresFullRefresh then
          some (.refresh { l with cursor := nextCursor serverUrlOf l { page with events := [] } })
        else q.nextEvent serverUrlOf l page page.events)
    else none
  | .travelMode l page e rest, .travelMode accountId =>
    some (accountId.elim q (q.record l e), q.nextEvent serverUrlOf l page rest)
  | .candidates l page e rest, .candidates accountIds =>
    -- without a known account the event is dropped
    match q.resolveCandidateAccountIds accountIds with
    | [] => some (q, q.nextEvent serverUrlOf l page rest)
    | candidates => some (q, some (.deltas l page e rest candidates candidates false))
  | .deltas l page e rest candidates (accountId :: left) applied, .delta outcome =>
    match outcome with
    | .applied => some (q.record l e accountId, q.nextDelta serverUrlOf l page e rest candidates true left)
    | .noToken => some (q, q.nextDelta serverUrlOf l page e rest candidates applied left)
    | .failed => some (q, none)
  | .clearItemCaches l page _ rest candidates, .resolved =>
    some (q.cover candidates, q.nextEvent serverUrlOf l page rest)
  | .refresh l, .accounts accountIds => some (q.cover accountIds, q.finish l)
  | .storeCursor scope cursor, .resolved => some (q.store scope cursor, none)
  | _, .failed _ => some (q, none)
  | _, _ => none

/-! ## A connection -/

/-- The frames of a chunk, up to the first that is waited for. -/
def processFrames : List SseFrame → ConnectAwait
  | [] => .read
  | .other :: rest => processFrames rest
  | .sessionRevoked :: rest => .dispatch rest
  | .sync :: rest =>
    match q.connection with
    | none => processFrames rest
    | some scope => .catchUp scope (.getLastSyncCursor scope) (.frames rest)

def afterCatchUp : AfterCatchUp → ConnectAwait
  | .push => .push
  | .frames rest => q.processFrames rest

/-- The catch-up after the stream has opened. -/
def catchUpMissedEvents : ConnectAwait :=
  q.connection.elim .push fun scope => .catchUp scope (.getLastSyncCursor scope) .push

/-- The `catch` of `connect`. -/
def connectionFailed : ExtensionSync × ConnectAwait := ((q.setStatus .error).scheduleReconnect, .ended)

/-- `connect` and `readStream`, from one await to the next. -/
def resume (k : Nat) : ConnectAwait → ConnectAnswer → Option (ExtensionSync × ConnectAwait)
  | .resolveConnectionContext, .context none => some (q.setStatus .disconnected, .ended)
  | .resolveConnectionContext, .context (some accountId) =>
    some ({ q with
      connection := some ⟨accountId, serverUrlOf accountId⟩
      syncBaselineValidated := false
      abortController := some k }, .events)
  | .events, .response true true =>
    some ({ q.setStatus .connected with reconnectAttempt := 0, alarm := none }, .clearAlarm)
  | .events, .response _ _ => some q.connectionFailed
  | .clearAlarm, .resolved => some (q, q.catchUpMissedEvents)
  | .catchUp began await next, answer =>
    (q.catchUpStep serverUrlOf await answer).map fun (q', await') =>
      (q', await'.elim (q'.afterCatchUp next) fun await' => .catchUp began await' next)
  | .push, .resolved => some (q, .read)
  | .read, .chunk frames => some (q, q.processFrames frames)
  | .read, .done => some ((if q.revoked then q else q.setStatus .reconnecting).scheduleReconnect, .ended)
  | .dispatch rest, .resolved => some (q, q.processFrames rest)
  | .read, .failed false | .dispatch _, .failed _ =>
    some ((q.setStatus .reconnecting).scheduleReconnect, .ended)
  | .events, .failed true | .read, .failed true => some (q, .ended)
  | .resolveConnectionContext, .failed _ | .events, .failed false | .clearAlarm, .failed _ => some q.connectionFailed
  | _, _ => none

def connect : ExtensionSync :=
  if q.connectionStatus = .connected ∨ q.connectionStatus = .connecting then q
  else { q.setStatus .connecting with attempts := q.attempts ++ [⟨false, .resolveConnectionContext⟩] }

def disconnect (suppressReconnect : Bool) : ExtensionSync :=
  { q with
    revoked := q.revoked || suppressReconnect
    attempts := q.abortController.elim q.attempts fun k => q.attempts.modify k ({ · with aborted := true })
    abortController := none
    connection := none
    syncBaselineValidated := false
    alarm := none
    connectionStatus := .disconnected }

def cleanupSync : ExtensionSync :=
  { q.disconnect false with
    revoked := false
    cursors := q.connection.elim q.cursors fun scope => Function.update q.cursors scope none }

def step : ExtensionSyncLabel → Option ExtensionSync
  | .connect => some { q with stopped := false }.connect
  | .initializeSync => some { q with revoked := false, stopped := false }.connect
  | .disconnect suppressReconnect => some { q.disconnect suppressReconnect with stopped := true }
  | .cleanupSync => some { q.cleanupSync with stopped := true }
  | .alarmGoesOff =>
    if q.alarm.isSome then some { q with alarm := none, alarmEvents := q.alarmEvents + 1 } else none
  | .handleSyncReconnectAlarm =>
    if q.alarmEvents = 0 then none
    else
      let q := { q with alarmEvents := q.alarmEvents - 1 }
      some (if q.revoked then q else q.connect)
  | .resume k answer => do
    let t ← q.attempts[k]?
    let (q', await) ← q.resume serverUrlOf k t.await answer
    return { q' with attempts := q'.attempts.set k { t with await := await } }
  | .setActiveAccount accountId => some { q with activeAccount := accountId }
  | .emit accountId seq =>
    if q.head accountId < seq then
      some { q with
        feed := Function.update q.feed accountId (q.feed accountId ++ [seq])
        head := Function.update q.head accountId seq }
    else none

end ExtensionSync

namespace ExtensionSync

/-- The replica of an account has an event: it was applied to it, or the replica was refreshed or
cleared after it. -/
def Covered (q : ExtensionSync) (accountId : String) (seq : Nat) : Prop :=
  ⟨accountId, accountId, seq⟩ ∈ q.applied ∨ ∃ newest, (accountId, newest) ∈ q.snapshots ∧ seq ≤ newest

/-- A cursor that may be stored for an account: of its feed, and past no event that the replica
does not have. -/
structure Fits (q : ExtensionSync) (scope : SyncConnection) (cursor : FeedCursor) : Prop where
  feed : cursor.id ≠ 0 → cursor.feed = scope
  covered : ∀ seq ∈ q.feed scope.accountId, seq ≤ cursor.id → q.Covered scope.accountId seq

/-- A worker that has just started, with the cursors that are stored. -/
structure Initial (q : ExtensionSync) : Prop where
  abortController : q.abortController = none
  connectionStatus : q.connectionStatus = .disconnected
  connection : q.connection = none
  syncBaselineValidated : q.syncBaselineValidated = false
  alarm : q.alarm = none
  alarmEvents : q.alarmEvents = 0
  revoked : q.revoked = false
  attempts : q.attempts = []
  feed : ∀ accountId, ∀ seq ∈ q.feed accountId, seq ≤ q.head accountId
  cursors : ∀ scope cursor, q.cursors scope = some cursor →
    q.Fits scope cursor ∧ cursor.id ≤ q.head scope.accountId
  applied : ∀ a ∈ q.applied, a.accountId = a.feed
  stopped : q.stopped = false

end ExtensionSync

def extensionSync (serverUrlOf : String → String) : System ExtensionSync ExtensionSyncLabel where
  init := ExtensionSync.Initial
  step q a := q.step serverUrlOf a

end Bittery
