/-
Verification codes: `domains/auth/verification_code.rs`, with the requests of
`registration.rs`, `recovery.rs` and `shares/mod.rs` that issue, verify and consume them.

A request runs one statement at a time, and at each await any other request can go on. A
failed attempt is written back from the row as an earlier statement has read it. What the
rate limiter, the mail and the share link answer comes with the label.

The three tables are one, whose rows are told apart by their purpose; an invitation token
stands for its hash. `created_at` orders the rows as they were inserted. `updated_at`, the
audit event of a lockout and the tokens that a caller mints are left out.
-/
import Bittery.Lib.Runs
import Bittery.Lib.Table
import Bittery.Server.Db

namespace Bittery

open Lib

inductive VerificationPurpose
  | signup (invitationTokenHash : Option String)
  | recovery
  | shareEmail (shareLinkId : String)
deriving DecidableEq, Repr

/-- Whether the codes of one purpose are those of another up to the invitation. -/
def VerificationPurpose.sameTable : VerificationPurpose → VerificationPurpose → Bool
  | .signup _, .signup _ | .recovery, .recovery => true
  | .shareEmail shareLinkId, .shareEmail shareLinkId' => shareLinkId = shareLinkId'
  | _, _ => false

structure Verification where
  id : String
  purpose : VerificationPurpose
  email : String
  codeHash : String
  attempts : Nat
  maxAttempts : Nat
  expiresAt : Time
  usedAt : Option Time
deriving DecidableEq, Repr

def VERIFICATION_CODE_TTL : Time := 15 * 60 * 1000

/-- The default of `max_attempts`. -/
def MAX_ATTEMPTS : Nat := 5

def isValidCode (code : String) : Bool := code.utf8ByteSize = 6 && code.toList.all Char.isDigit

namespace Verification

variable (r : Verification)

/-- The codes that a newer one of the purpose supersedes. -/
def isFor (purpose : VerificationPurpose) (email : String) : Bool := r.purpose = purpose && r.email = email

/-- The codes that a lockout covers: for a sign-up, those of every invitation. -/
def isCovered (purpose : VerificationPurpose) (email : String) : Bool := purpose.sameTable r.purpose && r.email = email

/-- `expires_at > now AND used_at IS NULL`. -/
def isActive (now : Time) : Bool := r.usedAt.isNone && decide (now < r.expiresAt)

/-- `attempts >= max_attempts`. -/
def isExhausted : Bool := r.maxAttempts ≤ r.attempts

/-- The rows that `issue` marks as used. The codes of a share link are not among them. -/
def isSuperseded (purpose : VerificationPurpose) (email : String) : Bool :=
  match purpose with
  | .signup _ | .recovery => r.usedAt.isNone && r.isFor purpose email
  | .shareEmail _ => false

def isConsumable (purpose : VerificationPurpose) (id : String) (now : Time) : Bool :=
  r.id = id && purpose.sameTable r.purpose && r.isActive now &&
    match purpose with
    | .signup _ => !r.isExhausted
    | .recovery | .shareEmail _ => true

def use (now : Time) : Verification := { r with usedAt := some now }

def consume (purpose : VerificationPurpose) (now : Time) : Verification :=
  match purpose with
  | .signup _ => { r with attempts := r.attempts + 1, usedAt := some now }
  | .recovery | .shareEmail _ => { r with usedAt := some now }

/-- The rows that `consume_recovery_session` finds. -/
def hasSession (id : String) : Bool := r.id = id && r.purpose = .recovery && r.usedAt.isSome && !r.isExhausted

def endSession : Verification := { r with attempts := r.maxAttempts }

/-- `used_at` as a failed attempt writes it. -/
def usedAfterFailure (now : Time) : Option Time := if r.maxAttempts ≤ r.attempts + 1 then some now else none

/-- A row that gets the attempts of the row that was read, and one more. -/
def recordFailed (read : Verification) (now : Time) (r : Verification) : Verification :=
  { r with attempts := read.attempts + 1, usedAt := read.usedAfterFailure now }

end Verification

/-! ## Requests -/

inductive VerificationOutcome
  | valid (verificationId : String)
  | invalid
  | exhausted
  | locked
  | lockoutTriggered
deriving DecidableEq, Repr

/-- What a request does next, with the locals that are used from there on. -/
inductive CodeAwait
  | insert (id codeHash : String) (expiresAt : Time)
  | deliver (id : String)
  | undelivered (id : String)
  | isLocked (code : String)
  | hasActiveCode (codeHash : String)
  | verify (codeHash : String) (hadActiveCode : Bool)
  /-- The code has matched none. -/
  | findActive (now : Time) (hadActiveCode : Bool)
  | recordFailed (verification : Verification) (now : Time) (hadActiveCode : Bool)
  | recordFailure (outcome : VerificationOutcome)
  | invalidatePending
  | clear (id : String)
  /-- `consume_share_link_access`. -/
  | access (id : String)
  | consume (id : String)
  /-- Nothing if a code was issued, or the request was refused elsewhere. -/
  | ended (outcome : Option VerificationOutcome)
deriving DecidableEq, Repr

structure CodeRequest where
  purpose : VerificationPurpose
  email : String
  await : CodeAwait
deriving DecidableEq, Repr

/-- What has happened to a code. -/
inductive CodeEvent
  /-- A wrong guess was compared with it while it was active. -/
  | guessed (id : String)
  /-- It was used up by wrong guesses, invalidated, or superseded by a newer one. -/
  | retired (id : String)
  | accepted (id : String)
deriving DecidableEq, Repr

def CodeEvent.id : CodeEvent → String
  | .guessed id | .retired id | .accepted id => id

abbrev Codes := Table Verification.id

namespace Codes

/-- `ORDER BY created_at DESC LIMIT 1`. -/
def newest (codes : Codes) (p : Verification → Bool) : Option Verification := (codes.select p).getLast?

/-- An update that retires the rows it finds. -/
def retire (codes : Codes) (p : Verification → Bool) (f : Verification → Verification)
    (hf : ∀ r, (f r).id = r.id := by intro r; rfl) : Codes × List CodeEvent :=
  (codes.updateWhere p f hf, (codes.select p).map fun r => .retired r.id)

end Codes

theorem Verification.consume_id (purpose : VerificationPurpose) (now : Time) (r : Verification) :
    (r.consume purpose now).id = r.id := by
  cases purpose <;> rfl

/-- An attempt that has not been accepted. -/
def CodeAwait.notAccepted (hadActiveCode : Bool) (outcome : VerificationOutcome) : CodeAwait :=
  if hadActiveCode then .recordFailure outcome else .ended (some outcome)

/-- The next statement of a request; `ok` is what the limiter, the mail or the share link answer. -/
def CodeRequest.resume (hashToken : String → String) (codes : Codes) (ok : Bool) (now : Time) (t : CodeRequest) :
    Option ((Codes × List CodeEvent) × CodeAwait) :=
  match t.await with
  | .insert id codeHash expiresAt =>
    (codes.insert ⟨id, t.purpose, t.email, codeHash, 0, MAX_ATTEMPTS, expiresAt, none⟩).map fun codes' =>
      ((codes', (codes.select fun r => r.isFor t.purpose t.email).map fun r => .retired r.id), .deliver id)
  | .deliver id => some ((codes, []), if ok then .ended none else .undelivered id)
  | .undelivered id =>
    some (codes.retire (·.isConsumable t.purpose id now) (·.consume t.purpose now) (Verification.consume_id t.purpose now),
      .ended none)
  | .isLocked code =>
    some ((codes, []),
      if ¬ ok then .ended (some .locked)
      else if ¬ isValidCode code then .ended (some .invalid)
      else .hasActiveCode (hashToken code))
  | .hasActiveCode codeHash =>
    some ((codes, []), .verify codeHash (codes.any fun r => r.isCovered t.purpose t.email && r.isActive now))
  | .verify codeHash hadActiveCode =>
    match codes.newest fun r => r.isFor t.purpose t.email && r.codeHash = codeHash && r.isActive now with
    | some verification =>
      some ((codes, []),
        if verification.isExhausted then .notAccepted hadActiveCode .exhausted else .clear verification.id)
    | none =>
      some ((codes, (codes.select fun r => r.isFor t.purpose t.email && r.isActive now).map fun r => .guessed r.id),
        .findActive now hadActiveCode)
  | .findActive now hadActiveCode =>
    match codes.newest fun r => r.isFor t.purpose t.email && r.isActive now with
    | some verification => some ((codes, []), .recordFailed verification now hadActiveCode)
    | none => some ((codes, []), .notAccepted hadActiveCode .invalid)
  | .recordFailed verification now hadActiveCode =>
    some ((codes.updateWhere (fun r => r.id = verification.id) (verification.recordFailed now),
      if (verification.usedAfterFailure now).isSome then [.retired verification.id] else []),
      .notAccepted hadActiveCode .invalid)
  | .recordFailure outcome => some ((codes, []), if ok then .ended (some outcome) else .invalidatePending)
  | .invalidatePending =>
    some (codes.retire (fun r => r.usedAt.isNone && r.isCovered t.purpose t.email) (·.use now),
      .ended (some .lockoutTriggered))
  | .clear id =>
    some ((codes, []),
      match t.purpose with
      | .signup _ | .recovery => .consume id
      | .shareEmail _ => .access id)
  | .access id => some ((codes, []), if ok then .consume id else .ended none)
  | .consume id =>
    if codes.any (·.isConsumable t.purpose id now) then
      some ((codes.updateWhere (·.isConsumable t.purpose id now) (·.consume t.purpose now)
        (Verification.consume_id t.purpose now), [.accepted id]), .ended (some (.valid id)))
    else some ((codes, []), .ended (some .invalid))
  | .ended _ => none

/-! ## Runs -/

inductive CodeLabel
  | issue (purpose : VerificationPurpose) (email id code : String)
  | verify (purpose : VerificationPurpose) (email code : String)
  | resume (request : Nat) (ok : Bool)
  | consumeRecoverySession (id : String)
deriving DecidableEq, Repr

structure CodeState where
  clock : Time
  codes : Codes
  requests : List CodeRequest
  /-- The latest event comes first. -/
  log : List CodeEvent

namespace CodeState

variable (q : CodeState)

def write (x : Codes × List CodeEvent) : CodeState := { q with codes := x.1, log := x.2 ++ q.log }

/-- A request begins. -/
def start (t : CodeRequest) : CodeState := { q with requests := q.requests ++ [t] }

/-- One statement, at a time. -/
def step (hashToken : String → String) (now : Time) : CodeLabel → Option CodeState
  | .issue purpose email id code =>
    some ((q.write (q.codes.retire (·.isSuperseded purpose email) (·.use now))).start
      ⟨purpose, email, .insert id (hashToken code) (now + VERIFICATION_CODE_TTL)⟩)
  | .verify purpose email code => some (q.start ⟨purpose, email, .isLocked code⟩)
  | .resume k ok => do
    let t ← q.requests[k]?
    let (x, await) ← t.resume hashToken q.codes ok now
    return { q.write x with requests := q.requests.set k { t with await := await } }
  | .consumeRecoverySession id =>
    some (q.write (q.codes.updateWhere (·.hasSession id) Verification.endSession, []))

end CodeState

/-- The clock never goes back. -/
def verificationCodes (hashToken : String → String) : System CodeState (Time × CodeLabel) where
  init q := q = ⟨0, .empty, [], []⟩
  step q a := if q.clock ≤ a.1 then ({ q with clock := a.1 }).step hashToken a.1 a.2 else none

end Bittery
