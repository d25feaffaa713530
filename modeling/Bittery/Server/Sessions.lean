/-
Sessions: `domains/sessions/service.rs` and `sessions/control.rs`, with the revocations of
`auth/credentials.rs`, `auth/recovery.rs` and `auth/devices.rs`.

A request runs one statement at a time under READ COMMITTED, and between two statements any other
request can go on, fail or be cut off by a crash. A DELETE finds its rows when it starts, waits
for those another transaction has locked, and deletes the ones that are still there; what it
deletes in a transaction others see once that commits. A transaction that changes the user's row
locks it until then.

The state keeps what no column has: the credentials that a session's login was proven against
(they are numbered) and the sessions it was refreshed from, and what has happened (`history`, the
latest first). Platform and client id are as `create_session` and `refresh_session` normalize
them. Names, addresses and the other columns of a device are left out, and so are the checks of
the credentials themselves: what they answer comes with the label.
-/
import Bittery.Lib.Runs
import Bittery.Lib.Table
import Bittery.Server.Db

namespace Bittery

open Lib

/-! ## Rows -/

structure SessionDevice where
  userId : String
  platform : String
  clientId : Option String
deriving DecidableEq, Repr

/-- Where a session comes from: the credentials that its login was proven against, and the ids
of the session and of those it was refreshed from. -/
structure SessionOrigin where
  userId : String
  credentials : Nat
  lineage : List String := []
deriving DecidableEq, Repr

namespace SessionOrigin

def extend (id : String) (o : SessionOrigin) : SessionOrigin := { o with lineage := id :: o.lineage }

end SessionOrigin

structure SessionRow where
  id : String
  platform : String
  clientId : Option String
  expiresAt : Time
  origin : SessionOrigin
deriving DecidableEq, Repr

namespace SessionRow

def userId (s : SessionRow) : String := s.origin.userId

def device (s : SessionRow) : SessionDevice := ⟨s.userId, s.platform, s.clientId⟩

/-- Whether both are sessions of one client. -/
def sameClient : Option SessionRow → Option SessionRow → Bool
  | some target, some current => target.clientId.isSome && current.clientId.isSome && target.clientId = current.clientId
  | _, _ => false

end SessionRow

def sessionDurationForPlatform (platform : String) : Time :=
  if platform = "web" then 24 * 60 * 60 * 1000
  else if platform = "extension" then 7 * 24 * 60 * 60 * 1000
  else 30 * 24 * 60 * 60 * 1000

/-- The condition of a DELETE. -/
inductive SessionTarget
  /-- `user_id = ..` -/
  | user (userId : String)
  /-- `user_id = .. AND id != ..` -/
  | others (userId currentSessionId : String)
  /-- `user_id = .. AND platform = .. AND client_id = ..` -/
  | device (device : SessionDevice)
  /-- `id = .. AND user_id = ..` -/
  | session (id userId : String)
deriving DecidableEq, Repr

def SessionTarget.matches : SessionTarget → SessionRow → Bool
  | .user userId, s => s.userId = userId
  | .others userId currentSessionId, s => s.userId = userId && s.id ≠ currentSessionId
  | .device d, s => d.clientId.isSome && s.device = d
  | .session id userId, s => s.id = id && s.userId = userId

/-! ## Revocations -/

/-- Which sessions a request revokes. -/
inductive Revocation
  /-- Those from credentials before the number, but for the one that may stay. -/
  | credentials (userId : String) (number : Nat) (spared : Option String)
  /-- The one that is named, and those that the DELETE has found. -/
  | device (sessionId : String) (found : List String)
deriving DecidableEq, Repr

namespace Revocation

/-- A revoked session, or one that was refreshed from it. -/
def covers : Revocation → SessionOrigin → Bool
  | .credentials userId number spared, o =>
    o.userId = userId && o.credentials < number && !spared.any (· ∈ o.lineage)
  | .device sessionId found, o => o.lineage.any fun id => id = sessionId || id ∈ found

def finds (ids : List String) : Revocation → Revocation
  | .device sessionId _ => .device sessionId ids
  | r => r

end Revocation

inductive CredentialChange
  | password | email | secretKey
deriving DecidableEq, Repr

namespace CredentialChange

/-- `delete_other_user_sessions` leaves the current session. -/
def spared (currentSessionId : String) : CredentialChange → Option String
  | password | email => none
  | secretKey => some currentSessionId

def target (userId currentSessionId : String) : CredentialChange → SessionTarget
  | password | email => .user userId
  | secretKey => .others userId currentSessionId

end CredentialChange

/-! ## Requests -/

/-- What a request does next, with the locals that are used from there on. -/
inductive SessionAwait
  /-- `verify_login_proof_and_get_user`. -/
  | verifyProof (device : SessionDevice)
  /-- `create_session`: its DELETE starts. The revocation is what a recovery reports after it. -/
  | create (device : SessionDevice) (credentials : Nat) (report : Option Revocation)
  | clearing (device : SessionDevice) (credentials : Nat) (report : Option Revocation) (snapshot : List String)
  | insert (device : SessionDevice) (credentials : Nat) (report : Option Revocation) (cleared : List String)
  /-- `refresh_session`: `SELECT .. FOR UPDATE`. -/
  | select (sessionId : String)
  | regroup (current : SessionRow)
  | regrouping (current : SessionRow) (snapshot : List String)
  | replace (current : SessionRow) (cleared : List String)
  /-- The transaction of a credential change. -/
  | update (change : CredentialChange) (userId currentSessionId : String)
  /-- `reset_user_password_with_recovery`: `SELECT .. FOR UPDATE` of the sessions. -/
  | lockSessions (device : SessionDevice)
  | lockingSessions (device : SessionDevice) (snapshot : List String)
  | updateUser (device : SessionDevice) (listed : List String)
  | deleteSessions (device : SessionDevice) (number : Nat) (listed : List String)
  | deletingSessions (device : SessionDevice) (number : Nat) (listed snapshot : List String)
  | consume (device : SessionDevice) (number : Nat) (listed deleted : List String)
  /-- `revoke_device` of a session. -/
  | loadTarget (userId currentSessionId sessionId : String)
  | loadCurrent (userId currentSessionId sessionId : String) (targetSession : Option SessionRow)
  | getOwned (userId sessionId : String)
  | listGroup (sessionId : String) (device : SessionDevice)
  /-- The DELETE of a revocation. Without a list it returns the ids that are recorded. -/
  | delete (r : Revocation) (target : SessionTarget) (listed : Option (List String))
  | deleting (r : Revocation) (listed : Option (List String)) (snapshot : List String)
  /-- `record_session_revocations`, one INSERT each; then the session of a recovery. -/
  | record (r : Revocation) (ids : List String) (login : Option (SessionDevice × Nat))
  | audit (r : Revocation)
  | ended
deriving DecidableEq, Repr

namespace SessionAwait

/-- The rows of `session` that the request's transaction has locked. -/
def locks : SessionAwait → List String
  | .insert _ _ _ cleared => cleared
  | .regroup current | .regrouping current _ => [current.id]
  | .replace current cleared => current.id :: cleared
  | .updateUser _ listed | .deleteSessions _ _ listed | .deletingSessions _ _ listed _ => listed
  | .consume _ _ listed deleted => listed ++ deleted
  | _ => []

/-- The row of `user` that the request's transaction has locked, and the number of the
credentials that it has written to it. -/
def userLock : SessionAwait → Option (String × Nat)
  | .deleteSessions device number _ | .deletingSessions device number _ _ | .consume device number _ _ =>
    some (device.userId, number)
  | _ => none

end SessionAwait

/-- What has happened. -/
inductive SessionFact
  /-- New credentials are committed. -/
  | changed (request : Nat) (r : Revocation)
  /-- A revocation has deleted sessions. -/
  | deleted (request : Nat) (ids : List String)
  | recorded (sessionId : String)
  /-- A credential change or a device revocation is reported successful. -/
  | reported (request : Nat) (r : Revocation)
deriving DecidableEq, Repr

abbrev SessionTable := Table SessionRow.id

/-! ## Runs -/

inductive SessionLabel
  | login (device : SessionDevice)
  | refresh (sessionId : String)
  | change (change : CredentialChange) (userId currentSessionId : String)
  | recover (device : SessionDevice)
  | revokeDevice (userId currentSessionId sessionId : String)
  /-- A request goes on. The token is the one that `generate_opaque_session_token` gives. -/
  | resume (request : Nat) (ok : Bool) (token : String)
  /-- A request fails, or is cut off; a transaction that is open is rolled back. -/
  | drop (request : Nat)
  /-- The cleanup of expired sessions. -/
  | cleanup
deriving DecidableEq, Repr

structure SessionState where
  clock : Time := 0
  sessions : SessionTable := .empty
  /-- How often the credentials of a user have changed. -/
  credentials : String → Nat := fun _ => 0
  requests : List SessionAwait := []
  /-- The session ids that have been given out or named. -/
  named : List String := []
  history : List SessionFact := []

namespace SessionState

variable (q : SessionState)

/-- `verify_token`. -/
def verifyToken (hashToken : String → String) (token : String) : Option SessionRow :=
  (q.sessions.get? (hashToken token)).filter fun s => q.clock < s.expiresAt

/-- The ids of the sessions that a condition finds. -/
def find (target : SessionTarget) : List String := (q.sessions.select target.matches).map (·.id)

/-- Of these ids, those whose sessions are still there. -/
def still (ids : List String) : List String := ids.filter fun id => (q.sessions.get? id).isSome

/-- Whether another transaction has locked one of the rows. -/
def blocked (k : Nat) (ids : List String) : Bool :=
  (q.requests.set k .ended).any fun t => t.locks.any (· ∈ ids)

def userBlocked (k : Nat) (userId : String) : Bool :=
  (q.requests.set k .ended).any fun t => t.userLock.any (·.1 = userId)

def start (t : SessionAwait) : SessionState := { q with requests := q.requests ++ [t] }

def goOn (k : Nat) (t : SessionAwait) : SessionState := { q with requests := q.requests.set k t }

def tell (fact : SessionFact) : SessionState := { q with history := fact :: q.history }

def remove (ids : List String) : SessionState := { q with sessions := q.sessions.deleteWhere (·.id ∈ ids) }

/-- `INSERT`, of a session with a new id. -/
def insert (s : SessionRow) : Option SessionState :=
  if s.id ∈ q.named then none
  else (q.sessions.insert s).map fun sessions => { q with sessions, named := s.id :: q.named }

def setCredentials (userId : String) (number : Nat) : SessionState :=
  { q with credentials := Function.update q.credentials userId number }

def getOwnedSession (sessionId userId : String) : Option SessionRow :=
  (q.sessions.get? sessionId).filter (·.userId = userId)

/-- The next statement of a request. -/
def resumeAwait (hashToken : String → String) (k : Nat) (ok : Bool) (token : String) :
    SessionAwait → Option SessionState
  | .verifyProof device =>
    some (q.goOn k (if ok then .create device (q.credentials device.userId) none else .ended))
  | .create device credentials report =>
    some (q.goOn k (.clearing device credentials report (q.find (.device device))))
  | .clearing device credentials report snapshot =>
    if q.blocked k snapshot then none else some (q.goOn k (.insert device credentials report (q.still snapshot)))
  | .insert device credentials report cleared => do
    let id := hashToken token
    let q ← (q.remove cleared).insert ⟨id, device.platform, device.clientId,
      q.clock + sessionDurationForPlatform device.platform, ⟨device.userId, credentials, [id]⟩⟩
    return q.goOn k (report.elim .ended .audit)
  | .select sessionId =>
    if q.blocked k [sessionId] then none
    else
      match (q.sessions.get? sessionId).filter fun s => q.clock < s.expiresAt with
      | none => some (q.goOn k .ended)
      | some current => some (q.goOn k (.regroup current))
  | .regroup current =>
    let target := if current.clientId.isSome then .device current.device else .session current.id current.userId
    some (q.goOn k (.regrouping current (q.find target)))
  | .regrouping current snapshot =>
    if q.blocked k snapshot then none else some (q.goOn k (.replace current (q.still snapshot)))
  | .replace current cleared => do
    let id := hashToken token
    let q ← (q.remove cleared).insert ⟨id, current.platform, current.clientId,
      q.clock + sessionDurationForPlatform current.platform, current.origin.extend id⟩
    return q.goOn k .ended
  | .update change userId currentSessionId =>
    if q.userBlocked k userId then none
    else if ¬ ok then some (q.goOn k .ended)
    else
      let number := q.credentials userId + 1
      let r := .credentials userId number (change.spared currentSessionId)
      some (((q.setCredentials userId number).tell (.changed k r)).goOn k
        (.delete r (change.target userId currentSessionId) none))
  | .lockSessions device =>
    some (q.goOn k (if ok then .lockingSessions device (q.find (.user device.userId)) else .ended))
  | .lockingSessions device snapshot =>
    if q.blocked k snapshot then none else some (q.goOn k (.updateUser device (q.still snapshot)))
  | .updateUser device listed =>
    if q.userBlocked k device.userId then none
    else some (q.goOn k (.deleteSessions device (q.credentials device.userId + 1) listed))
  | .deleteSessions device number listed =>
    some (q.goOn k (.deletingSessions device number listed (q.find (.user device.userId))))
  | .deletingSessions device number listed snapshot =>
    if q.blocked k snapshot then none else some (q.goOn k (.consume device number listed (q.still snapshot)))
  | .consume device number listed deleted =>
    if ¬ ok then some (q.goOn k .ended)
    else
      let r := .credentials device.userId number none
      some (((((q.remove deleted).setCredentials device.userId number).tell (.changed k r)).tell (.deleted k deleted)).goOn k
        (.record r listed (some (device, number))))
  | .loadTarget userId currentSessionId sessionId =>
    some (q.goOn k (.loadCurrent userId currentSessionId sessionId (q.getOwnedSession sessionId userId)))
  | .loadCurrent userId currentSessionId sessionId targetSession =>
    -- "Cannot revoke current session. Use logout instead."
    some (q.goOn k (if SessionRow.sameClient targetSession (q.getOwnedSession currentSessionId userId) then .ended
      else .getOwned userId sessionId))
  | .getOwned userId sessionId =>
    match q.getOwnedSession sessionId userId with
    | none => some ((q.tell (.reported k (.device sessionId []))).goOn k .ended)
    | some existing =>
      some (q.goOn k (if existing.clientId.isSome then .listGroup sessionId existing.device
        else .delete (.device sessionId []) (.session sessionId userId) (some [existing.id])))
  | .listGroup sessionId device =>
    some (q.goOn k (.delete (.device sessionId []) (.device device) (some (q.find (.device device)))))
  | .delete r target listed =>
    let snapshot := q.find target
    some (q.goOn k (.deleting (r.finds snapshot) listed snapshot))
  | .deleting r listed snapshot =>
    if q.blocked k snapshot then none
    else
      let deleted := q.still snapshot
      some (((q.remove deleted).tell (.deleted k deleted)).goOn k (.record r (listed.getD deleted) none))
  | .record r (id :: ids) login => some ((q.tell (.recorded id)).goOn k (.record r ids login))
  | .record r [] login =>
    some (q.goOn k (login.elim (.audit r) fun (device, number) => .create device number (some r)))
  | .audit r => some (if ok then (q.tell (.reported k r)).goOn k .ended else q.goOn k .ended)
  | .ended => none

def step (hashToken : String → String) : SessionLabel → Option SessionState
  | .login device => some (q.start (.verifyProof device))
  | .refresh sessionId => some (q.start (.select sessionId))
  | .change change userId currentSessionId => some (q.start (.update change userId currentSessionId))
  | .recover device => some (q.start (.lockSessions device))
  | .revokeDevice userId currentSessionId sessionId =>
    if sessionId = currentSessionId then none
    else some { q.start (.loadTarget userId currentSessionId sessionId) with named := sessionId :: q.named }
  | .resume k ok token => (q.requests[k]?).bind (q.resumeAwait hashToken k ok token)
  | .drop k => (q.requests[k]?).map fun _ => q.goOn k .ended
  | .cleanup => some { q with sessions := q.sessions.deleteWhere (·.expiresAt ≤ q.clock) }

end SessionState

/-- The clock never goes back. -/
def sessionService (hashToken : String → String) : System SessionState (Time × SessionLabel) where
  init q := q = {}
  step q a := if q.clock ≤ a.1 then ({ q with clock := a.1 }).step hashToken a.2 else none

end Bittery
