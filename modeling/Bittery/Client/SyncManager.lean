/-
The sync manager that the web, desktop and mobile clients share: the connection part of
`packages/sync/src/sync-manager.ts`.

Each `connect` is an attempt of its own, which goes on at its awaits: when `openSyncEvents`
ends and when a read of the stream does. How they end comes with the label, also for an
attempt whose controller has been aborted; the fetch of such an attempt ends with an
`AbortError` unless something else has ended it first.

Of an event that the stream brings, only whether it counts as a sign of life; the listeners
and the stored cursor are left out.
-/
import Bittery.Lib.Runs
import Bittery.Lib.OneLive
import Mathlib.Algebra.Group.Nat.Defs

namespace Bittery

open Lib

inductive ConnectionStatus
  | disconnected
  | connecting
  | connected
  | reconnecting
  | error
deriving DecidableEq, Repr

/-- Whether an attempt is under way, and then whether its stream is open. -/
def ConnectionStatus.live : ConnectionStatus → Option Bool
  | .connecting => some false
  | .connected => some true
  | _ => none

/-- How `openSyncEvents` ends. -/
inductive OpenOutcome
  | response (ok hasBody : Bool)
  | failed (abort : Bool)
deriving DecidableEq, Repr

/-- How a read of the stream ends. -/
inductive ReadOutcome
  | chunk (heard : Bool)
  | done
  | failed (abort : Bool)
deriving DecidableEq, Repr

def ReadOutcome.isChunk : ReadOutcome → Bool
  | .chunk _ => true
  | _ => false

inductive StreamAwait
  | openSyncEvents
  | read
  | ended
deriving DecidableEq, Repr

/-- A call of `connect`, and whether its controller has been aborted. -/
structure StreamAttempt where
  aborted : Bool
  await : StreamAwait
deriving DecidableEq, Repr

/-- What a call of `connect` has: no stream yet, or an open one. -/
def StreamAttempt.stage (t : StreamAttempt) : Option Bool :=
  if t.aborted then none
  else
    match t.await with
    | .openSyncEvents => some false
    | .read => some true
    | .ended => none

structure SyncManagerOptions where
  reconnectDelay : Nat := 1000
  maxReconnectDelay : Nat := 30000

structure SyncManager where
  clock : Nat
  abortController : Option Nat
  connectionStatus : ConnectionStatus
  reconnectAttempt : Nat
  /-- The delay of the timer, while it runs. -/
  reconnectTimeout : Option Nat
  lastHeartbeatTime : Option Nat
  staleCheckInterval : Bool
  attempts : List StreamAttempt
  /-- Whether `disconnect` was called after the last `connect` of a caller (a record). -/
  stopped : Bool
deriving DecidableEq, Repr

inductive SyncManagerLabel
  | connect
  | disconnect
  | opened (attempt : Nat) (outcome : OpenOutcome)
  | read (attempt : Nat) (outcome : ReadOutcome)
  | staleCheck
  | reconnectTimeout
deriving DecidableEq, Repr

def STALE_CONNECTION_THRESHOLD : Nat := 35000

namespace SyncManager

variable (q : SyncManager) (options : SyncManagerOptions)

def initial : SyncManager := ⟨0, none, .disconnected, 0, none, none, false, [], false⟩

def setStatus (status : ConnectionStatus) : SyncManager := { q with connectionStatus := status }

def goOn (k : Nat) (t : StreamAttempt) (await : StreamAwait) : SyncManager :=
  { q with attempts := q.attempts.set k { t with await := await } }

def startStaleCheck : SyncManager := { q with lastHeartbeatTime := some q.clock, staleCheckInterval := true }

def scheduleReconnect : SyncManager :=
  { q with
    reconnectTimeout := some (min (options.reconnectDelay * 2 ^ q.reconnectAttempt) options.maxReconnectDelay)
    reconnectAttempt := q.reconnectAttempt + 1 }

def connect : SyncManager :=
  if q.connectionStatus = .connected ∨ q.connectionStatus = .connecting then q
  else
    { q with
      connectionStatus := .connecting
      abortController := some q.attempts.length
      attempts := q.attempts ++ [⟨false, .openSyncEvents⟩] }

/-- `this.abortController.abort()`, if there is one. -/
def abort : SyncManager :=
  { q with
    attempts := q.abortController.elim q.attempts fun k => q.attempts.modify k ({ · with aborted := true })
    abortController := none }

def disconnect : SyncManager :=
  { q.abort with staleCheckInterval := false, reconnectTimeout := none, connectionStatus := .disconnected }

/-- `connect`, after `openSyncEvents`. -/
def opened (k : Nat) (t : StreamAttempt) : OpenOutcome → SyncManager
  | .response true true =>
    { q.setStatus .connected with reconnectAttempt := 0 }.startStaleCheck.goOn k t .read
  | .response _ _ | .failed false => ((q.setStatus .error).scheduleReconnect options).goOn k t .ended
  | .failed true => q.goOn k t .ended

/-- `readStream`, after a read. -/
def read (k : Nat) (t : StreamAttempt) : ReadOutcome → SyncManager
  | .chunk heard => if heard then { q with lastHeartbeatTime := some q.clock } else q
  | .done | .failed false => ((q.setStatus .reconnecting).scheduleReconnect options).goOn k t .ended
  | .failed true => q.goOn k t .ended

def step : SyncManagerLabel → Option SyncManager
  | .connect => some { q with stopped := false }.connect
  | .disconnect => some { q.disconnect with stopped := true }
  | .opened k outcome => do
    let t ← q.attempts[k]?
    if t.await = .openSyncEvents then return q.opened options k t outcome else none
  | .read k outcome => do
    let t ← q.attempts[k]?
    if t.await = .read then return q.read options k t outcome else none
  | .staleCheck =>
    if q.staleCheckInterval then
      if q.lastHeartbeatTime.any (STALE_CONNECTION_THRESHOLD < q.clock - ·) then
        some ((q.disconnect.setStatus .reconnecting).scheduleReconnect options)
      else some q
    else none
  | .reconnectTimeout =>
    if q.reconnectTimeout.isSome then some { q with reconnectTimeout := none }.connect else none

end SyncManager

/-- The clock never goes back. -/
def syncManager (options : SyncManagerOptions) : System SyncManager (Nat × SyncManagerLabel) where
  init q := q = .initial
  step q a := if q.clock ≤ a.1 then { q with clock := a.1 }.step options a.2 else none

end Bittery
