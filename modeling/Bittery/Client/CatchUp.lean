/-
The catch-up of a client: the loop over the pages of the feed (`catch-up.ts`), and the part
of the orchestrator that starts it, applies its events and stores its cursor
(`sync-orchestrator.ts`, with the stored baseline of `sync-manager.ts`).

Every `await` is a state of its own, and what it is answered is the label of the next step,
so a run has any pages, any failures and a crash at any point. The key `lastSyncCursor` of
the sync storage is written along with the baseline and read by nothing here. The
orchestrator gives the loop no `shouldProcessEvent`.

A cursor is the sequence number its event id stands for, and 0 is the empty id, or none.
Fields of the state marked as such record what has happened and decide nothing.
-/
import Bittery.Lib.Runs
import Bittery.Server.Sync

namespace Bittery

open Lib

/-- What is wired into the orchestrator. -/
structure SyncOptions where
  initializeFromServer : Bool
  refreshFromServer : Bool
deriving DecidableEq, Repr

/-- `CatchUpPageResponse`. -/
structure CatchUpPage where
  events : List SyncEvent
  hasMore : Bool
  requiresFullRefresh : Bool
  cursor : Option Nat
deriving DecidableEq, Repr

/-- The cursor after a page that was applied: the page's own, or its last event. -/
def CatchUpPage.nextCursor (page : CatchUpPage) (cursor : Nat) : Nat :=
  (page.cursor.or (page.events.getLast?.map (·.seq))).getD cursor

/-- The loop goes on after a page. With more to come but the cursor where it was, it stops. -/
def CatchUpPage.continues (page : CatchUpPage) (cursor : Nat) : Bool :=
  !page.requiresFullRefresh && page.hasMore && decide (page.nextCursor cursor ≠ cursor)

/-- Where the loop is, and whether the orchestrator had a baseline when it started it;
`first` (a record) until the first page is there. -/
structure CatchUp where
  cursor : Nat
  hasBaseline : Bool
  first : Bool
deriving DecidableEq, Repr

/-- What `runCatchUp` of the orchestrator waits for. -/
inductive Await
  | idle
  | baseline
  | initializing (current : Nat)
  | storeBaseline (cursor : Nat)
  | changes (l : CatchUp)
  | event (l : CatchUp) (page : CatchUpPage) (e : SyncEvent) (rest : List SyncEvent)
  | acknowledge (l : CatchUp) (page : CatchUpPage) (e : SyncEvent) (rest : List SyncEvent)
  | refresh (l : CatchUp) (cursor : Option Nat)
  | storeCursor (cursor : Nat)
deriving DecidableEq, Repr

structure Orchestrator where
  /-- `syncBaselineV1`, the durable part. -/
  syncBaseline : Option Nat
  initialBaselineValidated : Bool
  catchUpRequested : Bool
  await : Await
  /-- A record: the numbers of the events of the pages so far that the feed still has. -/
  served : List Nat
  /-- A record: the numbers of the events whose changes have been applied. -/
  applied : List Nat
  /-- A record: the cursors of the snapshots that have been installed. -/
  snapshots : List Nat
deriving DecidableEq, Repr

/-- What a full refresh or the initial one comes to. A locked account resolves a refresh
without one having been made. -/
inductive RefreshOutcome
  | done | locked | failed
deriving DecidableEq, Repr

inductive InitializeOutcome
  | kept
  | snapshot (cursor : Nat)
  | failed
deriving DecidableEq, Repr

inductive SyncInput
  | ping
  | disconnect
  | crash
  | withdrawn (seq : Nat)
  | baselineRead
  | initialized (outcome : InitializeOutcome)
  | page (answer : Option CatchUpPage)
  | delta (ok : Bool)
  | refreshed (outcome : RefreshOutcome)
  | stored
  | storeFailed (landed : Bool)
deriving DecidableEq, Repr

namespace Orchestrator

variable (s : Orchestrator)

/-- The stored cursor: events up to it are not asked for again. -/
def durable : Nat := s.syncBaseline.getD 0

def throw : Orchestrator := { s with await := .idle }

/-- One iteration of `do … while (this.catchUpRequested)`. -/
def iterate : Orchestrator := { s with catchUpRequested := false, await := .baseline }

def endIteration : Orchestrator := if s.catchUpRequested then s.iterate else s.throw

/-- The loop has ended with a cursor. -/
def finish (cursor : Nat) (hasBaseline : Bool) : Orchestrator :=
  if cursor ≠ 0 then { s with await := .storeCursor cursor }
  else if hasBaseline then { s with await := .storeCursor 0 }
  else s.endIteration

/-- All events of a page are applied. -/
def pageDone (l : CatchUp) (page : CatchUpPage) : Orchestrator :=
  if page.continues l.cursor then { s with await := .changes ⟨page.nextCursor l.cursor, l.hasBaseline, false⟩ }
  else s.finish (page.nextCursor l.cursor) l.hasBaseline

def nextEvent (l : CatchUp) (page : CatchUpPage) : List SyncEvent → Orchestrator
  | [] => s.pageDone l page
  | e :: rest => { s with await := .event l page e rest }

/-- A page has come. -/
def receive (o : SyncOptions) (l : CatchUp) (page : CatchUpPage) : Orchestrator :=
  if page.requiresFullRefresh then
    if o.refreshFromServer then { s with await := .refresh l page.cursor } else s.throw
  else { s with served := s.served ++ page.events.map SyncEvent.seq }.nextEvent l page page.events

/-- The baseline was read. -/
def start (o : SyncOptions) : Orchestrator :=
  if o.initializeFromServer && (!s.initialBaselineValidated || s.syncBaseline.isNone) then
    { s with await := .initializing (s.syncBaseline.getD 0) }
  else { s with await := .changes ⟨s.syncBaseline.getD 0, s.syncBaseline.isSome, true⟩ }

/-- What a store was waited for is in the storage. -/
def afterStore : Option Orchestrator :=
  match s.await with
  | .storeBaseline cursor =>
    some { s with syncBaseline := some cursor, initialBaselineValidated := true, await := .changes ⟨cursor, true, true⟩ }
  | .acknowledge l page e rest => some ({ s with syncBaseline := some e.seq }.nextEvent l page rest)
  | .storeCursor cursor => some { s with syncBaseline := some cursor }.endIteration
  | _ => none

/-- The cursor that a store in progress writes. -/
def storing : Option Nat :=
  match s.await with
  | .storeBaseline cursor | .storeCursor cursor => some cursor
  | .acknowledge _ _ e _ => some e.seq
  | _ => none

def step (o : SyncOptions) : SyncInput → Option Orchestrator
  | .ping => some (if s.await = .idle then s.iterate else { s with catchUpRequested := true })
  | .disconnect => some { s with initialBaselineValidated := false }
  | .crash => some { s with initialBaselineValidated := false, catchUpRequested := false, await := .idle }
  | .withdrawn seq => some { s with served := s.served.filter (· ≠ seq) }
  | .baselineRead => match s.await with
    | .baseline => some (s.start o)
    | _ => none
  | .initialized outcome => match s.await, outcome with
    | .initializing current, .kept => some { s with await := .storeBaseline current }
    | .initializing _, .snapshot cursor => some { s with snapshots := cursor :: s.snapshots, await := .storeBaseline cursor }
    | .initializing _, .failed => some s.throw
    | _, _ => none
  | .page answer => match s.await, answer with
    | .changes l, some page => some (s.receive o l page)
    | .changes _, none => some s.throw
    | _, _ => none
  | .delta ok => match s.await, ok with
    | .event l page e rest, true => some { s with applied := e.seq :: s.applied, await := .acknowledge l page e rest }
    | .event .., false => some s.throw
    | _, _ => none
  | .refreshed outcome => match s.await, outcome with
    | .refresh l cursor, .done =>
      some ({ s with snapshots := cursor.toList ++ s.snapshots }.finish (cursor.getD l.cursor) l.hasBaseline)
    | .refresh l cursor, .locked => some (s.finish (cursor.getD l.cursor) l.hasBaseline)
    | .refresh .., .failed => some s.throw
    | _, _ => none
  | .stored => s.afterStore
  | .storeFailed landed => s.storing.map fun cursor =>
    (if landed then { s with syncBaseline := some cursor } else s).throw

end Orchestrator

/-- The orchestrator from a fresh install on. -/
def catchUp (o : SyncOptions) : System Orchestrator SyncInput where
  init s := s = ⟨none, false, false, .idle, [], [], []⟩
  step s a := s.step o a

/-! ## What is claimed of it -/

namespace Orchestrator

variable (s : Orchestrator)

/-- The change of an event is in the replica: applied, or in a snapshot taken after it. -/
def Covered (seq : Nat) : Prop := seq ∈ s.applied ∨ ∃ c ∈ s.snapshots, seq ≤ c

/-- No event of the feed at or below a cursor is left out. -/
def Safe (cursor : Nat) : Prop := ∀ seq ∈ s.served, seq ≤ cursor → s.Covered seq

/-- The events of a page that a run starting from the stored cursor would still ask for. -/
def unacknowledged (page : CatchUpPage) : List SyncEvent := page.events.filter fun e => s.durable < e.seq

/-- **Resumption**: while a page is unfinished, the stored cursor is right before its first
event that is not acknowledged, and those before it are applied; a run asks for its first page
from the stored cursor. -/
def Resumes : Prop :=
  match s.await with
  | .event _ page e rest => s.unacknowledged page = e :: rest ∧ ∀ x ∈ page.events, s.Covered x.seq ∨ x ∈ e :: rest
  | .acknowledge _ page e rest =>
    s.unacknowledged page = e :: rest ∧ s.Covered e.seq ∧ ∀ x ∈ page.events, s.Covered x.seq ∨ x ∈ rest
  | .changes l => l.first = true → l.cursor = s.durable
  | _ => True

end Orchestrator

/-- What a page promises about the feed: its events follow the cursor that was asked for, in
order, the cursor it gives is not before them, and it has all the events of the feed that
were there before and are within it. -/
structure CatchUpPage.Answers (page : CatchUpPage) (served : List Nat) (since : Nat) : Prop where
  sorted : page.events.Pairwise fun a b => a.seq < b.seq
  after : ∀ e ∈ page.events, since < e.seq
  cursor : ∀ c, page.cursor = some c → since ≤ c ∧ ∀ e ∈ page.events, e.seq ≤ c
  complete : ∀ seq ∈ served, since < seq → seq ≤ page.nextCursor since → ∃ e ∈ page.events, e.seq = seq

/-- A page answers the request it is an answer to, and a refresh that resolves was made. -/
def SyncInput.Promised (s : Orchestrator) : SyncInput → Prop
  | .page (some answer) => ∀ l, s.await = .changes l → answer.requiresFullRefresh = false → answer.Answers s.served l.cursor
  | .refreshed outcome => outcome ≠ .locked
  | _ => True

end Bittery
