/-
The two backends of the rate limiter: `shared/rate_limit.rs`, with the table `rate_limit_state`.

Times are in microseconds, which is what the table keeps; Redis reads its clock in milliseconds. Calls are
made one at a time. The table's other columns, which nothing reads, and calls that a backend fails to answer
at all are left out, and so are dates that no timestamp can hold.
-/
import Bittery.Lib.Framing
import Mathlib.Algebra.Group.Int.Defs
import Mathlib.Logic.Function.Basic

namespace Bittery

open Lib

/-! ## What the backends share -/

inductive Scope
  | loginIp
  | loginEmail
  | signupIp
  | signupEmail
  | signupVerifyRequestEmail
  | signupVerifyRequestIp
  | signupVerify
  | recoveryRequestEmail
  | recoveryRequestIp
  | recoveryVerify
  | shareEmailVerify
  | genericIp
  | shareCreateDaily
  | updateEmailUser
  | changePasswordUser
  | regenerateSecretKeyUser
  | deleteAccountUser
  | revokeSessionActor
  | renameSessionActor
deriving DecidableEq, Repr

def Scope.text : Scope → String
  | loginIp => "auth_login_ip"
  | loginEmail => "auth_login_email"
  | signupIp => "auth_signup_ip"
  | signupEmail => "auth_signup_email"
  | signupVerifyRequestEmail => "auth_signup_verify_request_email"
  | signupVerifyRequestIp => "auth_signup_verify_request_ip"
  | signupVerify => "auth_signup_verify"
  | recoveryRequestEmail => "auth_recovery_request_email"
  | recoveryRequestIp => "auth_recovery_request_ip"
  | recoveryVerify => "auth_recovery_verify"
  | shareEmailVerify => "share_email_verify"
  | genericIp => "auth_generic_ip"
  | shareCreateDaily => "share_create_daily"
  | updateEmailUser => "auth_update_email_user"
  | changePasswordUser => "auth_change_password_user"
  | regenerateSecretKeyUser => "auth_regenerate_secret_key_user"
  | deleteAccountUser => "auth_delete_account_user"
  | revokeSessionActor => "auth_revoke_session_actor"
  | renameSessionActor => "auth_rename_session_actor"

/-- At most `max` requests in a window of that many seconds. -/
structure WindowLimit where
  max : Int
  window : Nat
deriving DecidableEq, Repr

inductive RateLimitOutcome
  | allowed
  | limited
deriving DecidableEq, Repr

/-- A call; limits are of 64 bits, windows and locks in seconds. -/
inductive RateLimitCall
  | checkAndIncrement (scope : Scope) (key : String) (limit : Int) (window : Nat)
  | recordFailure (scope : Scope) (key : String) (maxAttempts : Int) (lockDuration : Nat)
  | isLocked (scope : Scope) (key : String)
  | clear (scope : Scope) (key : String)
deriving DecidableEq, Repr

def RateLimitCall.subject : RateLimitCall → Scope × String
  | checkAndIncrement scope key _ _ | recordFailure scope key _ _ | isLocked scope key | clear scope key => (scope, key)

inductive RateLimitAnswer
  | outcome (outcome : RateLimitOutcome)
  | cleared
  | failed (message : String)
deriving DecidableEq, Repr

/-- A number cast to 32 bits. -/
def asI32 (n : Int) : Int := n.bmod (2 ^ 32)

/-! ## Postgres -/

namespace PostgresRateLimiter

structure Row where
  count : Int
  windowStartAt : Option Nat
  attempts : Int
  lockedUntil : Option Nat
deriving DecidableEq, Repr

abbrev Rows := Scope × String → Option Row

/-- The row after the insert that conflicts are ignored of. -/
def seeded (row : Option Row) (seed : Row) : Row := row.getD seed

/-- Whether a window has ended, or never began. -/
def isStale (windowStartAt : Option Nat) (windowCutoff : Nat) : Bool := windowStartAt.all (· < windowCutoff)

/-- The check on the row of its subject. -/
def checkAndIncrement (row : Option Row) (now : Nat) (limit : Int) (window : Nat) : Row × RateLimitOutcome :=
  let windowCutoff := now - window * 1000000
  let row := seeded row { count := 0, windowStartAt := some now, attempts := 0, lockedUntil := none }
  let stale := isStale row.windowStartAt windowCutoff
  if stale || row.count < asI32 limit then
    ({ row with count := if stale then 1 else row.count + 1,
                windowStartAt := if stale then some now else row.windowStartAt }, .allowed)
  else (row, .limited)

def isLockedAt (now : Nat) (lockedUntil : Option Nat) : Bool := lockedUntil.any (now < ·)

def recordFailure (row : Option Row) (now : Nat) (maxAttempts : Int) (lockDuration : Nat) : Row × RateLimitOutcome :=
  let row := seeded row { count := 0, windowStartAt := none, attempts := 0, lockedUntil := none }
  if isLockedAt now row.lockedUntil then (row, .limited)
  else
    let lockExpired := row.lockedUntil.any (· ≤ now)
    let baseAttempts := if lockExpired then 0 else row.attempts
    let newAttempts := asI32 (baseAttempts + 1)
    let nowLocked := maxAttempts ≤ newAttempts
    ({ row with attempts := newAttempts,
                lockedUntil := if nowLocked then some (now + lockDuration * 1000000) else none },
      if nowLocked then .limited else .allowed)

def isLocked (row : Option Row) (now : Nat) : RateLimitOutcome :=
  if isLockedAt now (row.bind (·.lockedUntil)) then .limited else .allowed

def clear (row : Option Row) : Option Row := row.map fun row => { row with attempts := 0, lockedUntil := none }

def call (rows : Rows) (now : Nat) (call : RateLimitCall) : Rows × RateLimitAnswer :=
  let row := rows call.subject
  match call with
  | .checkAndIncrement _ _ limit window =>
    let (row, outcome) := checkAndIncrement row now limit window
    (Function.update rows call.subject (some row), .outcome outcome)
  | .recordFailure _ _ maxAttempts lockDuration =>
    let (row, outcome) := recordFailure row now maxAttempts lockDuration
    (Function.update rows call.subject (some row), .outcome outcome)
  | .isLocked _ _ => (rows, .outcome (isLocked row now))
  | .clear _ _ => (Function.update rows call.subject (clear row), .cleared)

end PostgresRateLimiter

/-! ## Redis -/

namespace RedisRateLimiter

/-- A key's value, and the millisecond after which it is gone. -/
structure Entry where
  value : Int
  expiresAt : Option Nat
deriving DecidableEq, Repr

abbrev Store := String → Option Entry

def Entry.isExpired (entry : Entry) (now : Nat) : Bool := entry.expiresAt.any (· < now / 1000)

/-! ### Commands, on the cell of their key -/

/-- What a command finds. -/
def live (cell : Option Entry) (now : Nat) : Option Entry := cell.filter fun entry => !entry.isExpired now

def incr (cell : Option Entry) (now : Nat) : Entry :=
  match live cell now with
  | none => { value := 1, expiresAt := none }
  | some entry => { entry with value := entry.value + 1 }

/-- A key that is to expire at once is removed. -/
def expire (entry : Entry) (now : Nat) (seconds : Int) : Option Entry :=
  if seconds ≤ 0 then none else some { entry with expiresAt := some (now / 1000 + seconds.toNat * 1000) }

def setEx (value : Int) (now : Nat) (seconds : Int) : Except String Entry :=
  if seconds ≤ 0 then .error "ERR invalid expire time in 'set' command"
  else .ok { value, expiresAt := some (now / 1000 + seconds.toNat * 1000) }

def keyExists (cell : Option Entry) (now : Nat) : Bool := (live cell now).isSome

/-! ### Scripts and calls -/

def ATTEMPTS_RETENTION : Nat := 24 * 60 * 60

/-- The counter after the script, and whether it is over the limit. -/
def counterScript (counter : Option Entry) (now : Nat) (window limit : Int) : Option Entry × Bool :=
  let c := incr counter now
  (if c.value = 1 then expire c now window else some c, decide (limit < c.value))

/-- The attempts and the lock after the script, and whether it is locked, unless the script is aborted. -/
def failureScript (attempts lock : Option Entry) (now : Nat) (max lockSecs retention : Int) :
    (Option Entry × Option Entry) × Except String Bool :=
  if keyExists lock now then ((attempts, lock), .ok true)
  else
    let a := incr attempts now
    let attempts := if a.value = 1 then expire a now retention else some a
    if max ≤ a.value then
      match setEx 1 now lockSecs with
      | .error e => ((attempts, lock), .error e)
      | .ok lock => ((none, some lock), .ok true)
    else ((attempts, lock), .ok false)

def counterKey (subject : Scope × String) : String := "rl:c:" ++ subject.1.text ++ ":" ++ subject.2

def attemptsKey (subject : Scope × String) : String := "rl:a:\x7b" ++ subject.1.text ++ ":" ++ subject.2 ++ "\x7d"

def lockKey (subject : Scope × String) : String := "rl:l:\x7b" ++ subject.1.text ++ ":" ++ subject.2 ++ "\x7d"

def outcomeOf (limited : Bool) : RateLimitOutcome := if limited then .limited else .allowed

def call (store : Store) (now : Nat) (call : RateLimitCall) : Store × RateLimitAnswer :=
  let counter := counterKey call.subject
  let attempts := attemptsKey call.subject
  let lock := lockKey call.subject
  match call with
  | .checkAndIncrement _ _ limit window =>
    let (cell, limited) := counterScript (store counter) now window limit
    (Function.update store counter cell, .outcome (outcomeOf limited))
  | .recordFailure _ _ maxAttempts lockDuration =>
    let (cells, limited) := failureScript (store attempts) (store lock) now maxAttempts lockDuration ATTEMPTS_RETENTION
    (Function.update (Function.update store attempts cells.1) lock cells.2,
      match limited with
      | .ok limited => .outcome (outcomeOf limited)
      | .error _ => .failed "Failed to record failed attempt")
  | .isLocked _ _ => (store, .outcome (outcomeOf (keyExists (store lock) now)))
  | .clear _ _ => (Function.update (Function.update store attempts none) lock none, .cleared)

end RedisRateLimiter

/-- What a backend answers to calls that are made one after another. -/
def answers {σ : Type} (backend : σ → Nat → RateLimitCall → σ × RateLimitAnswer) (s : σ) :
    List (Nat × RateLimitCall) → List RateLimitAnswer
  | [] => []
  | (now, call) :: calls => (backend s now call).2 :: answers backend (backend s now call).1 calls

end Bittery
