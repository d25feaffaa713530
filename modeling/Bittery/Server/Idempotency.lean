/-
Idempotent requests: `shared/idempotency.rs` and `http/idempotency.rs`.

`execute` claims the key, runs the domain operation and stores its response. The claim
is five SQL statements, each its own transaction, and the operation commits by itself,
so other requests and the death of the process can fall between any two of them. Each
statement is a function on the table of records; `execute` is a machine with one step
for each statement, and a server run interleaves any number of these machines.

Two simplifications: a connection that fails takes its request down (the same step as a
crash, before or after the statement had its effect), and the response headers that are
neither stored nor replayed are left out.
-/
import Mathlib.Data.List.Sort
import Bittery.Lib.Runs
import Bittery.Lib.Table
import Bittery.Server.Error

namespace Bittery.Idempotency

open Lib

/-- Seconds, as `NOW()` counts them here. -/
abbrev Time := Nat

abbrev Byte := UInt8

/-- A SHA-256 digest. -/
abbrev Fingerprint := List Byte

def RESPONSE_BODY_LIMIT : Nat := 2 * 1024 * 1024

/-- `INTERVAL '5 minutes'`. -/
def claimInterval : Time := 5 * 60

/-- `INTERVAL '24 hours'`. -/
def retention : Time := 24 * 60 * 60

structure RequestScope where
  principalId : String
  method : String
  routeTarget : String
  key : String
deriving DecidableEq, Repr

structure StoredResponse where
  status : UInt16
  contentType : Option String
  body : List Byte
  etag : Option String
deriving DecidableEq, Repr

inductive Claim
  | execute
  | replay (stored : StoredResponse)
  | fingerprintMismatch
  | inProgress
  | indeterminate
deriving DecidableEq, Repr

/-! ## The table -/

inductive RecordState
  | pending | completed | indeterminate
deriving DecidableEq, Repr

/-- The length constraints on the columns of the key. -/
def RequestScope.withinLimits (s : RequestScope) : Bool :=
  decide (1 ≤ s.method.length ∧ s.method.length ≤ 16 ∧ 1 ≤ s.routeTarget.length ∧ s.routeTarget.length ≤ 1024 ∧
    1 ≤ s.key.length ∧ s.key.length ≤ 255)

/-- `idempotency_record_response_state`: which columns are set in which state. -/
def responseState (state : RecordState) (claimExpiresAt : Option Time) (status : Option Nat)
    (body : Option (List Byte)) (terminalReason : Option String) : Bool :=
  match state with
  | .pending => claimExpiresAt.isSome && status.isNone && body.isNone && terminalReason.isNone
  | .completed =>
    claimExpiresAt.isNone && status.any (fun s => 100 ≤ s && s ≤ 599) && body.isSome && terminalReason.isNone
  | .indeterminate => claimExpiresAt.isNone && status.isNone && body.isNone && terminalReason.isSome

/-- A row of `idempotency_record`. Its CHECK constraints are fields, so a row the
database would refuse cannot be built. -/
structure Record where
  scope : RequestScope
  requestFingerprint : Fingerprint
  state : RecordState
  responseStatus : Option Nat
  responseContentType : Option String
  responseBody : Option (List Byte)
  responseEtag : Option String
  createdAt : Time
  expiresAt : Time
  claimExpiresAt : Option Time
  terminalReason : Option String
  withinLimits : scope.withinLimits = true
  checked : responseState state claimExpiresAt responseStatus responseBody terminalReason = true
deriving DecidableEq

abbrev Records := Table Record.scope

/-! ## The statements -/

/-- The row `INSERT` and the reclaiming `UPDATE` leave: a fresh claim. -/
def Record.claimed (scope : RequestScope) (fingerprint : Fingerprint) (now : Time)
    (h : scope.withinLimits = true) : Record where
  scope := scope
  requestFingerprint := fingerprint
  state := .pending
  responseStatus := none
  responseContentType := none
  responseBody := none
  responseEtag := none
  createdAt := now
  expiresAt := now + retention
  claimExpiresAt := some (now + claimInterval)
  terminalReason := none
  withinLimits := h
  checked := rfl

@[simp] theorem Record.claimed_scope {scope : RequestScope} {fingerprint : Fingerprint} {now : Time}
    {h : scope.withinLimits = true} : (Record.claimed scope fingerprint now h).scope = scope := rfl

def Record.markedIndeterminate (r : Record) (h : r.state = .pending) : Record :=
  { r with
    state := .indeterminate
    claimExpiresAt := none
    terminalReason := some "OUTCOME_UNKNOWN_AFTER_CLAIM_TIMEOUT"
    checked := by
      have hc := r.checked
      rw [h] at hc
      simp only [responseState, Bool.and_eq_true] at hc ⊢
      exact ⟨⟨⟨rfl, hc.1.1.2⟩, hc.1.2⟩, rfl⟩ }

def Record.completedWith (r : Record) (status : Nat) (response : StoredResponse) (now : Time)
    (h : 100 ≤ status ∧ status ≤ 599) : Record :=
  { r with
    state := .completed
    responseStatus := some status
    responseContentType := response.contentType
    responseBody := some response.body
    responseEtag := response.etag
    expiresAt := now + retention
    claimExpiresAt := none
    terminalReason := none
    checked := by simp [responseState, h.1, h.2] }

@[simp] theorem Record.completedWith_scope {r : Record} {status : Nat} {response : StoredResponse} {now : Time}
    {h : 100 ≤ status ∧ status ≤ 599} : (r.completedWith status response now h).scope = r.scope := rfl

/-- `state = 'completed' AND expires_at <= NOW()`. -/
def Record.expired (now : Time) (r : Record) : Bool := r.state = .completed && decide (r.expiresAt ≤ now)

/-- `state = 'pending' AND claim_expires_at <= NOW()`. -/
def Record.stale (now : Time) (r : Record) : Bool :=
  r.state = .pending && r.claimExpiresAt.any fun x => decide (x ≤ now)

/-- `ORDER BY … LIMIT 100 FOR UPDATE SKIP LOCKED`: the first hundred rows that meet `p`
and are not locked by another transaction. -/
def batch (locked : RequestScope → Bool) (p : Record → Bool) (order : Record → Option Time) (t : Records) :
    List RequestScope :=
  (((t.select fun r => p r && !locked r.scope).insertionSort fun a b => (order a).getD 0 ≤ (order b).getD 0).take
    100).map Record.scope

/-- The `DELETE` of `maintain_records`. -/
def deleteExpired (locked : RequestScope → Bool) (now : Time) (t : Records) : Records :=
  let expired := batch locked (Record.expired now) (some ∘ Record.expiresAt) t
  t.deleteWhere fun r => decide (r.scope ∈ expired)

/-- The `UPDATE` of `maintain_records`. -/
def markStale (locked : RequestScope → Bool) (now : Time) (t : Records) : Records :=
  let stale := batch locked (Record.stale now) Record.claimExpiresAt t
  t.updateWhere (fun r => decide (r.scope ∈ stale))
    (fun r => if h : r.state = .pending then r.markedIndeterminate h else r)
    (by intro r; split <;> rfl)

/-- `INSERT … ON CONFLICT DO NOTHING`. `none`: a CHECK constraint failed; otherwise the
table and whether a row was inserted. -/
def insertClaim (scope : RequestScope) (fingerprint : Fingerprint) (now : Time) (t : Records) :
    Option (Records × Bool) :=
  if h : scope.withinLimits then
    match t.insert (.claimed scope fingerprint now h) with
    | some t' => some (t', true)
    | none => some (t, false)
  else none

/-- The `UPDATE` that takes over an expired record; whether it changed a row. -/
def reclaim (scope : RequestScope) (fingerprint : Fingerprint) (now : Time) (t : Records) : Records × Bool :=
  let hit : Record → Bool := fun r => r.scope = scope && r.expired now
  (t.updateWhere hit (fun r => .claimed r.scope fingerprint now r.withinLimits) (fun _ => Record.claimed_scope),
    t.any hit)

/-- The closing `SELECT` of `claim` and the reading of its row. -/
def readClaim (scope : RequestScope) (fingerprint : Fingerprint) (t : Records) : Except AppError Claim :=
  match t.get? scope with
  | none => .error (.internal "Idempotency database operation failed")
  | some row =>
    if row.requestFingerprint ≠ fingerprint then .ok .fingerprintMismatch
    else if row.state = .pending then .ok .inProgress
    else if row.state = .indeterminate then .ok .indeterminate
    else
      match row.responseStatus.bind fun s => if s < 2 ^ 16 then some (UInt16.ofNat s) else none with
      | none => .error (.internal "Stored idempotency response has no status")
      | some status =>
        match row.responseBody with
        | none => .error (.internal "Stored idempotency response has no body")
        | some body => .ok (.replay ⟨status, row.responseContentType, body, row.responseEtag⟩)

/-- `complete`: the guarded `UPDATE` with the checks before and after it. -/
def complete (scope : RequestScope) (fingerprint : Fingerprint) (response : StoredResponse) (now : Time)
    (t : Records) : Except AppError Records :=
  if RESPONSE_BODY_LIMIT < response.body.length then
    .error (.internal "Idempotent response exceeded its storage budget")
  else if 2 ^ 15 ≤ response.status.toNat then .error (.internal "Invalid idempotent response status")
  else
    let hit : Record → Bool := fun r =>
      r.scope = scope && r.requestFingerprint = fingerprint && r.state = .pending &&
        r.claimExpiresAt.any fun x => decide (now < x)
    if t.count hit ≠ 1 then .error (.internal "Idempotency claim was lost before completion")
    else if h : 100 ≤ response.status.toNat ∧ response.status.toNat ≤ 599 then
      .ok (t.updateWhere hit (fun r => r.completedWith response.status.toNat response now h)
        (fun _ => Record.completedWith_scope))
    else .error (.internal "Idempotency database operation failed")

/-! ## The request -/

/-- The eight bytes of `(n as u64).to_be_bytes()`. -/
def beBytes (n : Nat) : List Byte := (List.range 8).map fun i => UInt8.ofNat (n / 256 ^ (7 - i))

/-- What `request_fingerprint` feeds the digest. -/
def fingerprintInput (body precondition : List Byte) : List Byte :=
  beBytes body.length ++ body ++ (beBytes precondition.length ++ precondition)

def requestFingerprint (sha256 : List Byte → Fingerprint) (body : List Byte) (ifMatch : Option (List Byte)) :
    Fingerprint :=
  sha256 (fingerprintInput body (ifMatch.getD []))

/-- A response as the client sees it; `replayed` is the header `idempotency-replayed`. -/
structure Response where
  stored : StoredResponse
  replayed : Bool
deriving DecidableEq, Repr

def replay (stored : StoredResponse) : Except ApiError Response :=
  if 100 ≤ stored.status.toNat ∧ stored.status.toNat < 1000 then .ok ⟨stored, true⟩
  else .error (.serviceUnavailable .idempotencyResponseUnavailable "The stored request outcome is invalid.")

def keyReused : ApiError :=
  .unprocessable .idempotencyKeyReused "The idempotency key was already used for a different request."

def requestInProgress : ApiError :=
  .serviceUnavailable .idempotencyRequestInProgress "A request with this idempotency key is still in progress."

def outcomeIndeterminate : ApiError :=
  .conflict .idempotencyOutcomeIndeterminate
    "The previous request outcome is unknown and must be verified before operator recovery."

/-- The arms of `execute` other than `Claim::Execute`. -/
def refuse : Claim → Option (Except ApiError Response)
  | .replay stored => some (replay stored)
  | .fingerprintMismatch => some (.error keyReused)
  | .inProgress => some (.error requestInProgress)
  | .indeterminate => some (.error outcomeIndeterminate)
  | .execute => none

/-! ## The machine -/

/-- The next thing a request does. The first five are the statements of `claim`. -/
inductive Pc
  | deleteExpired | markStale | insert | reclaim | select
  | operate
  | complete (response : StoredResponse)
  | done
deriving DecidableEq, Repr

structure Process where
  id : Nat
  scope : RequestScope
  fingerprint : Fingerprint
  pc : Pc
deriving DecidableEq, Repr

inductive EventKind
  | executed (response : StoredResponse)
  | completed (response : StoredResponse) (expiresAt : Time)
  | answered (reply : Except ApiError Response)
deriving Repr

/-- What happened to a request and when; the history is a record for the proofs, no step reads it. -/
structure Event where
  request : Nat
  scope : RequestScope
  fingerprint : Fingerprint
  time : Time
  kind : EventKind
deriving Repr

structure State where
  clock : Time
  records : Records
  requests : Table Process.id
  /-- Newest first. -/
  history : List Event

/-- One step of a server run. `NOW()` is the time the statement started, `now`, so it
may lie behind the clock; `locked` are the rows other transactions hold. -/
inductive Label
  | tick (seconds : Time)
  | arrive (id : Nat) (scope : RequestScope) (body : List Byte) (ifMatch : Option (List Byte))
  | statement (id : Nat) (now : Time) (locked : RequestScope → Bool)
  | operate (id : Nat) (response : StoredResponse)
  | crash (id : Nat)

namespace State

def setPc (s : State) (id : Nat) (pc : Pc) : State :=
  { s with requests := s.requests.updateWhere (fun p => p.id = id) (fun p => { p with pc := pc }) }

def record (s : State) (p : Process) (kind : EventKind) : State :=
  { s with history := ⟨p.id, p.scope, p.fingerprint, s.clock, kind⟩ :: s.history }

/-- The request ends with this reply. -/
def answer (s : State) (p : Process) (reply : Except ApiError Response) : State :=
  (s.setPc p.id .done).record p (.answered reply)

end State

/-- The statement a request is at. -/
def runStatement (s : State) (p : Process) (now : Time) (locked : RequestScope → Bool) : Option State :=
  match p.pc with
  | .deleteExpired => some ({ s with records := deleteExpired locked now s.records }.setPc p.id .markStale)
  | .markStale => some ({ s with records := markStale locked now s.records }.setPc p.id .insert)
  | .insert =>
    match insertClaim p.scope p.fingerprint now s.records with
    | none => some (s.answer p (.error (.ofAppError (.internal "Idempotency database operation failed"))))
    | some (t, true) => some ({ s with records := t }.setPc p.id .operate)
    | some (_, false) => some (s.setPc p.id .reclaim)
  | .reclaim =>
    match reclaim p.scope p.fingerprint now s.records with
    | (t, true) => some ({ s with records := t }.setPc p.id .operate)
    | (_, false) => some (s.setPc p.id .select)
  | .select =>
    match readClaim p.scope p.fingerprint s.records with
    | .error e => some (s.answer p (.error (.ofAppError e)))
    | .ok c => (refuse c).map (s.answer p)
  | .complete response =>
    match complete p.scope p.fingerprint response now s.records with
    | .error e => some (s.answer p (.error (.ofAppError e)))
    | .ok t =>
      some (({ s with records := t }.record p (.completed response (now + retention))).answer p
        (.ok ⟨response, false⟩))
  | .operate | .done => none

/-- The domain operation runs and commits; its response is buffered. -/
def runOperation (s : State) (p : Process) (response : StoredResponse) : Option State :=
  if p.pc ≠ .operate then none
  else
    let s := s.record p (.executed response)
    if RESPONSE_BODY_LIMIT < response.body.length then
      some (s.answer p (.error (.serviceUnavailable .idempotencyResponseUnavailable
        "The request outcome could not be safely recorded.")))
    else some (s.setPc p.id (.complete response))

def step (sha256 : List Byte → Fingerprint) (s : State) : Label → Option State
  | .tick seconds => some { s with clock := s.clock + seconds }
  | .arrive id scope body ifMatch =>
    (s.requests.insert ⟨id, scope, requestFingerprint sha256 body ifMatch, .deleteExpired⟩).map fun rs =>
      { s with requests := rs }
  | .statement id now locked =>
    if now ≤ s.clock then (s.requests.get? id).bind fun p => runStatement s p now locked else none
  | .operate id response => (s.requests.get? id).bind fun p => runOperation s p response
  | .crash id => (s.requests.get? id).map fun p => s.setPc p.id .done

/-- The server with an empty table and no request; the digest is a parameter. -/
def server (sha256 : List Byte → Fingerprint) : System State Label where
  init s := s.records = .empty ∧ s.requests = .empty ∧ s.history = []
  step := step sha256

end Bittery.Idempotency
