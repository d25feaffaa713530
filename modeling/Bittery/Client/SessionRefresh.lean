/-
The session-refreshing API client: `packages/shared/src/api-session-refresh.ts`, with the
servers that its requests go to, which revoke the sessions of a client when they issue it a new
one (`refresh_session`).

A request goes on from one await to the next, and at each await anything else can go on: other
requests, a refresh, a server, a switch of the active account. What `await` of a refresh
waits for goes on in the step that ends the refresh. Whether a server may be used over an
insecure transport comes with the label, as does the token that a server makes up; it is a new
one.

The URL of a request is one of the default server. The body, the other headers and the
metadata of a request are left out, and of a status only whether it is 401.
-/
import Bittery.Lib.Runs
import Mathlib.Data.List.DropRight
import Mathlib.Data.Rat.Defs
import Mathlib.Algebra.Order.Ring.Unbundled.Rat
import Mathlib.Logic.Function.Basic

namespace Bittery

open Lib

/-! ## URLs -/

structure Url where
  protocol : String
  host : String
  pathname : List Char
  search : String
  rooted : ['/'] <+: pathname
deriving DecidableEq

/-- `pathname.replace(/\/+$/, "")`. -/
def withoutTrailingSlashes (pathname : List Char) : List Char := pathname.rdropWhile (· = '/')

def pathWithoutBase (pathname basePathname : List Char) : List Char :=
  let basePath := withoutTrailingSlashes basePathname
  if basePath = [] ∨ basePath = ['/'] then pathname
  else if pathname = basePath then ['/']
  else if basePath ++ ['/'] <+: pathname then pathname.drop basePath.length
  else pathname

theorem pathWithoutBase_rooted {pathname : List Char} (basePathname : List Char) (h : ['/'] <+: pathname) :
    ['/'] <+: pathWithoutBase pathname basePathname := by
  unfold pathWithoutBase
  dsimp only
  split_ifs with h1 h2 h3
  · exact h
  · exact List.prefix_rfl
  · obtain ⟨rest, rfl⟩ := h3
    simp
  · exact h

theorem prefix_withoutTrailingSlashes {pathname rest : List Char} (h : ['/'] <+: pathname) (hrest : ['/'] <+: rest) :
    ['/'] <+: withoutTrailingSlashes pathname ++ rest := by
  rcases hbase : withoutTrailingSlashes pathname with - | ⟨c, base⟩
  · exact hrest
  · have hpre : c :: base <+: pathname := hbase ▸ List.rdropWhile_prefix _ _
    obtain ⟨pathname', rfl⟩ := h
    obtain ⟨tail, htail⟩ := hpre
    simp only [List.cons_append, List.nil_append, List.cons.injEq] at htail
    simp [htail.1]

namespace Url

/-- The requests that a server answers are those to a URL under its own. -/
def isUnder (url serverUrl : Url) : Bool :=
  url.protocol = serverUrl.protocol && url.host = serverUrl.host &&
    decide (withoutTrailingSlashes serverUrl.pathname ++ ['/'] <+: url.pathname)

def routeRequestUrl (target fromServerUrl toServerUrl : Url) : Url where
  protocol := toServerUrl.protocol
  host := toServerUrl.host
  pathname :=
    withoutTrailingSlashes toServerUrl.pathname ++ pathWithoutBase target.pathname fromServerUrl.pathname
  search := target.search
  rooted := prefix_withoutTrailingSlashes toServerUrl.rooted (pathWithoutBase_rooted _ target.rooted)

def refreshPath : List Char := "/api/v1/sessions/current/refresh".toList

/-- `request.url.endsWith("/api/v1/sessions/current/refresh")`. -/
def isRefresh (url : Url) : Bool := url.search = "" && decide (refreshPath <:+ url.pathname)

/-- Where the session of a server is refreshed. -/
def refreshUrl (serverUrl : Url) : Url where
  protocol := serverUrl.protocol
  host := serverUrl.host
  pathname := withoutTrailingSlashes serverUrl.pathname ++ refreshPath
  search := ""
  rooted := prefix_withoutTrailingSlashes serverUrl.rooted ⟨_, rfl⟩

/-- **A routed request goes to the server it is routed to.** -/
theorem isUnder_routeRequestUrl (target fromServerUrl toServerUrl : Url) :
    (target.routeRequestUrl fromServerUrl toServerUrl).isUnder toServerUrl = true := by
  obtain ⟨rest, hrest⟩ := pathWithoutBase_rooted fromServerUrl.pathname target.rooted
  simp [isUnder, routeRequestUrl, ← hrest]

theorem isUnder_refreshUrl (serverUrl : Url) : (refreshUrl serverUrl).isUnder serverUrl = true := by
  have hslash : ['/'] <+: refreshPath := ⟨_, rfl⟩
  obtain ⟨rest, hrest⟩ := hslash
  simp [isUnder, refreshUrl, ← hrest]

end Url

/-! ## Sessions, as the client and the servers have them -/

/-- A session of a server: `accountId` is the account of this client that it was issued for. -/
structure ClientSession where
  server : Url
  accountId : String
  token : String
deriving DecidableEq

/-- What the storage has of an account. -/
structure AccountSession where
  serverUrl : Url
  token : Option String
  createdAt : Option Nat
  expiresAt : Option Nat

structure AccountSessionSnapshot where
  accountId : String
  serverUrl : Url
  token : Option String
  issuedAt : Option Nat
  expiresAt : Option Nat
deriving DecidableEq

structure SessionTiming where
  issuedAt : Option Nat
  expiresAt : Option Nat
deriving DecidableEq

structure SessionRefreshingApiClientOptions where
  defaultServerUrl : Url
  thresholdRatio : Rat

abbrev AccountKey := String × Url

namespace AccountSessionSnapshot

variable (s : AccountSessionSnapshot)

def accountKey : AccountKey := (s.accountId, s.serverUrl)

/-- `snapshot.token ?? ""`. -/
def bearer : String := s.token.getD ""

/-- `getAccountSnapshot`, for an account as it is stored. -/
def ofAccount (defaultServerUrl : Url) (accountId : String) : Option AccountSession → AccountSessionSnapshot
  | none => ⟨accountId, defaultServerUrl, none, none, none⟩
  | some account => ⟨accountId, account.serverUrl, account.token, account.createdAt, account.expiresAt⟩

/-- With the timing that is noted for the account, if there is one. -/
def shouldRefresh (thresholdRatio : Rat) (timing : Option SessionTiming) (now : Nat) : Bool :=
  let issuedAt := ((timing.bind (·.issuedAt)).or s.issuedAt).getD 0
  let expiresAt := ((timing.bind (·.expiresAt)).or s.expiresAt).getD 0
  s.bearer ≠ "" && issuedAt ≠ 0 && expiresAt ≠ 0 && decide (issuedAt < expiresAt) &&
    decide ((issuedAt : Rat) + ((expiresAt : Rat) - issuedAt) * thresholdRatio ≤ now)

end AccountSessionSnapshot

/-! ## Requests and refreshes -/

/-- What the caller of a request is answered. -/
structure ApiResponse where
  unauthorized : Bool
  /-- The token of the answered request, and whether that was a replay (records). -/
  token : String
  replayed : Bool
deriving DecidableEq

inductive RequestAwait
  | activeAccount
  | accountSnapshot (accountId : String)
  | authorizeServer (snapshot : Option AccountSessionSnapshot)
  | refresh (snapshot : AccountSessionSnapshot) (id : Nat)
  | body (snapshot : Option AccountSessionSnapshot) (token : String)
  | sent (snapshot : Option AccountSessionSnapshot) (token : String)
  | answered (snapshot : Option AccountSessionSnapshot) (token : String) (unauthorized : Bool)
      (expires : Option (Option Nat))
  | forced (snapshot : AccountSessionSnapshot) (token : String) (id : Nat)
  | replayed (snapshot : AccountSessionSnapshot) (token : String)
  /-- Nothing if the request has failed. -/
  | ended (response : Option ApiResponse)
deriving DecidableEq

/-- A request; `bearer` is the token it brings along. -/
structure ApiRequest where
  url : Url
  bearer : Option String
  await : RequestAwait
deriving DecidableEq

inductive RefreshAwait
  | sent
  /-- The new token and when it expires, or a refusal. -/
  | answered (renewed : Option (String × Option Nat))
  | storing (token : String) (expiresAt : Option Nat)
  /-- The new token, if the refresh has succeeded. -/
  | ended (token : Option String)
deriving DecidableEq

structure Refresh where
  snapshot : AccountSessionSnapshot
  await : RefreshAwait
deriving DecidableEq

/-- What `refreshSnapshot` answers: a token, or the refresh to wait for. -/
inductive Refreshing
  | done (token : String)
  | wait (id : Nat)
deriving DecidableEq

/-- Why a bearer token was sent; for a replay, with the token that is stored then. -/
inductive BearerUse
  | attached
  | brought
  | refresh
  | replay (stored : Option String)
deriving DecidableEq

structure SentBearer where
  url : Url
  token : String
  use : BearerUse
deriving DecidableEq

namespace ApiRequest

/-- Where a request goes, for the account it is sent for. -/
def target (t : ApiRequest) (defaultServerUrl : Url) (snapshot : Option AccountSessionSnapshot) : Url :=
  match t.bearer with
  | some _ => t.url
  | none => t.url.routeRequestUrl defaultServerUrl ((snapshot.map (·.serverUrl)).getD defaultServerUrl)

/-- A request whose answer was 401 goes on with the token that the refresh has answered. -/
def afterForced (snapshot : AccountSessionSnapshot) (token refreshedToken : String) : RequestAwait :=
  if refreshedToken ≠ "" ∧ refreshedToken ≠ token then .replayed snapshot refreshedToken
  else .ended (some ⟨true, token, false⟩)

/-- What waits for a refresh goes on with the token it answers. -/
def resumed (id : Nat) (token : String) (t : ApiRequest) : ApiRequest :=
  match t.await with
  | .refresh s j => if j = id then { t with await := .body (some s) token } else t
  | .forced s old j => if j = id then { t with await := afterForced s old token } else t
  | _ => t

end ApiRequest

inductive ApiLabel
  /-- A request of a caller to the default server. -/
  | request (url : Url) (bearer : Option String)
  | setActiveAccount (accountId : Option String)
  /-- A request goes on to its next await. -/
  | resume (request : Nat) (ok : Bool)
  /-- The server answers a request; a session that it refreshes for it gets the token `fresh`. -/
  | serve (request : Nat) (expires : Option (Option Nat)) (fresh : String)
  /-- The request does not reach the server, or the answer not the client. -/
  | lose (request : Nat)
  | serveRefresh (refresh : Nat) (expiresAt : Option Nat) (fresh : String)
  | resumeRefresh (refresh : Nat)
  /-- A step of the refresh fails; the storage may have the new token already. -/
  | refreshFails (refresh : Nat) (written : Bool)
  /-- A server ends a session. -/
  | revoke (token : String)
deriving DecidableEq

structure ApiClientState where
  clock : Nat
  activeAccount : Option String
  accounts : String → Option AccountSession
  timingByAccount : AccountKey → Option SessionTiming
  refreshByAccount : AccountKey → Option Nat
  refreshes : List Refresh
  requests : List ApiRequest
  /-- The sessions of all servers. -/
  sessions : List ClientSession
  /-- Those there have ever been, and the bearer tokens that were sent (records). -/
  issued : List ClientSession
  sent : List SentBearer

namespace ApiClientState

variable (q : ApiClientState) (options : SessionRefreshingApiClientOptions)

def storedToken (accountId : String) : Option String := (q.accounts accountId).bind (·.token)

def goOn (k : Nat) (t : ApiRequest) (await : RequestAwait) : ApiClientState :=
  { q with requests := q.requests.set k { t with await := await } }

/-- A bearer token is sent; an empty one is none. -/
def send (url : Url) (token : String) (use : BearerUse) : ApiClientState :=
  { q with sent := if token = "" then q.sent else ⟨url, token, use⟩ :: q.sent }

def startRefresh (s : AccountSessionSnapshot) : ApiClientState :=
  { q with
    refreshes := q.refreshes ++ [⟨s, .sent⟩]
    refreshByAccount := Function.update q.refreshByAccount s.accountKey (some q.refreshes.length)
    sent := ⟨Url.refreshUrl s.serverUrl, s.bearer, .refresh⟩ :: q.sent }

def refreshSnapshot (s : AccountSessionSnapshot) (force : Bool) : ApiClientState × Refreshing :=
  if s.bearer = "" then (q, .done "")
  else if ¬ force ∧ ¬ s.shouldRefresh options.thresholdRatio (q.timingByAccount s.accountKey) q.clock then
    (q, .done s.bearer)
  else
    match q.refreshByAccount s.accountKey with
    | some id => (q, .wait id)
    | none => (q.startRefresh s, .wait q.refreshes.length)

/-- The timing that an answer with the header `Bittery-Session-Expires` notes. -/
def noteExpiry (s : AccountSessionSnapshot) : Option (Option Nat) → ApiClientState
  | none => q
  | some expiresAt =>
    let timing := q.timingByAccount s.accountKey
    let issuedAt := ((timing.bind (·.issuedAt)).or s.issuedAt).getD q.clock
    { q with timingByAccount := Function.update q.timingByAccount s.accountKey (some ⟨some issuedAt, expiresAt⟩) }

/-- `accountFetch`, from one await to the next. -/
def resume (t : ApiRequest) (ok : Bool) : Option (ApiClientState × RequestAwait) :=
  match t.await with
  | .activeAccount => some (q, q.activeAccount.elim (.authorizeServer none) .accountSnapshot)
  | .accountSnapshot accountId =>
    some (q, .authorizeServer (some (.ofAccount options.defaultServerUrl accountId (q.accounts accountId))))
  | .authorizeServer snapshot =>
    if ¬ ok then some (q, .ended none)
    else
      match t.bearer, snapshot with
      | some token, _ => some (q.send t.url token .brought, .sent none token)
      | none, none => some (q, .body none "")
      | none, some s =>
        match q.refreshSnapshot options s false with
        | (q', .done token) => some (q', .body (some s) token)
        | (q', .wait id) => some (q', .refresh s id)
  | .body snapshot token =>
    some (q.send (t.target options.defaultServerUrl snapshot) token .attached, .sent snapshot token)
  | .answered none token unauthorized _ => some (q, .ended (some ⟨unauthorized, token, false⟩))
  | .answered (some s) token unauthorized expires =>
    let q := q.noteExpiry s expires
    if unauthorized ∧ token ≠ "" ∧ ¬ t.url.isRefresh then
      match q.refreshSnapshot options s true with
      | (q', .done refreshedToken) => some (q', ApiRequest.afterForced s token refreshedToken)
      | (q', .wait id) => some (q', .forced s token id)
    else some (q, .ended (some ⟨unauthorized, token, false⟩))
  | _ => none

/-! ### The servers -/

/-- The session that a request is made in. -/
def session? (url : Url) (token : String) : Option ClientSession :=
  q.sessions.find? fun x => x.token = token && url.isUnder x.server

/-- `refresh_session`: the sessions of the client are replaced by a new one. -/
def renew (x : ClientSession) (fresh : String) : ApiClientState :=
  let renewed : ClientSession := { x with token := fresh }
  { q with
    sessions := renewed :: q.sessions.filter fun y => ¬ (y.server = x.server ∧ y.accountId = x.accountId)
    issued := renewed :: q.issued }

def isFresh (token : String) : Bool := token ≠ "" && q.issued.all (·.token ≠ token)

def serve (t : ApiRequest) (expires : Option (Option Nat)) (fresh : String) :
    Option (ApiClientState × RequestAwait) :=
  match t.await with
  | .sent snapshot token =>
    match q.session? (t.target options.defaultServerUrl snapshot) token with
    | none => some (q, .answered snapshot token true expires)
    | some x =>
      some (if t.url.isRefresh then q.renew x fresh else q, .answered snapshot token false expires)
  | .replayed s token =>
    some (q, .ended (some ⟨(q.session? (t.target options.defaultServerUrl (some s)) token).isNone, token, true⟩))
  | _ => none

/-! ### Refreshes -/

/-- A replay, for what waits for a refresh that answers `token`. -/
def replay? (id : Nat) (token : String) (t : ApiRequest) : Option SentBearer :=
  match t.await with
  | .forced s old j =>
    if j = id ∧ token ≠ "" ∧ token ≠ old then
      some ⟨t.target options.defaultServerUrl (some s), token, .replay (q.storedToken s.accountId)⟩
    else none
  | _ => none

/-- A refresh ends: what has waited for it goes on. -/
def settle (id : Nat) (r : Refresh) (renewed : Option String) : ApiClientState :=
  let token := renewed.getD r.snapshot.bearer
  { q with
    refreshes := q.refreshes.set id { r with await := .ended renewed }
    refreshByAccount := Function.update q.refreshByAccount r.snapshot.accountKey none
    requests := q.requests.map (ApiRequest.resumed id token)
    sent := q.requests.filterMap (q.replay? options id token) ++ q.sent }

/-- `storeRefreshedSession`, as the web client has it. -/
def store (accountId token : String) (expiresAt : Option Nat) : ApiClientState :=
  let account := (q.accounts accountId).map fun account => { account with token := some token, expiresAt := expiresAt }
  { q with accounts := Function.update q.accounts accountId account }

def serveRefresh (id : Nat) (r : Refresh) (expiresAt : Option Nat) (fresh : String) : Option ApiClientState :=
  match r.await with
  | .sent =>
    match q.session? (Url.refreshUrl r.snapshot.serverUrl) r.snapshot.bearer with
    | none => some { q with refreshes := q.refreshes.set id { r with await := .answered none } }
    | some x =>
      some { q.renew x fresh with
        refreshes := q.refreshes.set id { r with await := .answered (some (fresh, expiresAt)) } }
  | _ => none

def resumeRefresh (id : Nat) (r : Refresh) : Option ApiClientState :=
  match r.await with
  | .answered none => some (q.settle options id r none)
  | .answered (some (token, expiresAt)) =>
    some { q with
      timingByAccount :=
        Function.update q.timingByAccount r.snapshot.accountKey (some ⟨some q.clock, expiresAt⟩)
      refreshes := q.refreshes.set id { r with await := .storing token expiresAt } }
  | .storing token expiresAt =>
    some ((q.store r.snapshot.accountId token expiresAt).settle options id r (some token))
  | _ => none

def refreshFails (id : Nat) (r : Refresh) (written : Bool) : Option ApiClientState :=
  match r.await with
  | .ended _ => none
  | .storing token expiresAt =>
    some ((if written then q.store r.snapshot.accountId token expiresAt else q).settle options id r none)
  | _ => some (q.settle options id r none)

/-- One step, at the time of the clock. -/
def step : ApiLabel → Option ApiClientState
  | .request url bearer =>
    if url.isUnder options.defaultServerUrl then
      some { q with requests := q.requests ++
        [⟨url, bearer, if bearer.isSome then .authorizeServer none else .activeAccount⟩] }
    else none
  | .setActiveAccount accountId => some { q with activeAccount := accountId }
  | .resume k ok => do
    let t ← q.requests[k]?
    let (q', await) ← q.resume options t ok
    return q'.goOn k t await
  | .serve k expires fresh =>
    if q.isFresh fresh then do
      let t ← q.requests[k]?
      let (q', await) ← q.serve options t expires fresh
      return q'.goOn k t await
    else none
  | .lose k => do
    let t ← q.requests[k]?
    match t.await with
    | .sent _ _ | .answered _ _ _ _ | .replayed _ _ => return q.goOn k t (.ended none)
    | _ => none
  | .serveRefresh i expiresAt fresh =>
    if q.isFresh fresh then do
      let r ← q.refreshes[i]?
      q.serveRefresh i r expiresAt fresh
    else none
  | .resumeRefresh i => do
    let r ← q.refreshes[i]?
    q.resumeRefresh options i r
  | .refreshFails i written => do
    let r ← q.refreshes[i]?
    q.refreshFails options i r written
  | .revoke token => some { q with sessions := q.sessions.filter (·.token ≠ token) }

end ApiClientState

/-- A client that has just been created: an account has the sessions of one server, and its stored
token is one of theirs. -/
structure ApiClientState.Initial (q : ApiClientState) : Prop where
  requests : q.requests = []
  refreshes : q.refreshes = []
  refreshByAccount : ∀ key, q.refreshByAccount key = none
  sent : q.sent = []
  nonempty : ∀ x ∈ q.issued, x.token ≠ ""
  distinct : ∀ x ∈ q.issued, ∀ y ∈ q.issued, x.token = y.token → x = y
  sessions : ∀ x ∈ q.sessions, x ∈ q.issued
  servers : ∀ x ∈ q.issued, ∀ account, q.accounts x.accountId = some account → account.serverUrl = x.server
  stored : ∀ accountId account token, q.accounts accountId = some account → account.token = some token →
    token ≠ "" → ⟨account.serverUrl, accountId, token⟩ ∈ q.issued

/-- The clock never goes back. -/
def sessionRefreshingApiClient (options : SessionRefreshingApiClientOptions) : System ApiClientState (Nat × ApiLabel) where
  init := ApiClientState.Initial
  step q a := if q.clock ≤ a.1 then { q with clock := a.1 }.step options a.2 else none

end Bittery
