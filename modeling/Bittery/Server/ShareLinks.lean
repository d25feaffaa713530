/-
Share links: `domains/shares/mod.rs` with the statements of `records.rs`, on top of the
verification codes that an email-restricted link asks for.

A request runs one statement at a time, and at each await any other request can go on; it
fails there when a statement does, or when its client goes away. Whether the plan of the
creator has share links comes with the label, as does who may revoke a link.

A link holds the emails it is restricted to. The shape of a token and of an email is checked
before anything is read, and the purge of an item with its links is left out. Fields marked as
a record decide nothing.
-/
import Bittery.Server.Error
import Bittery.Server.VerificationCodes

namespace Bittery

open Lib

inductive ShareLinkAccessMode
  | anyone
  | emailRestricted
deriving DecidableEq, Repr

inductive ShareLinkStatus
  | active
  | expired
  | exhausted
  | revoked
deriving DecidableEq, Repr

def ShareLinkStatus.text : ShareLinkStatus → String
  | .active => "active"
  | .expired => "expired"
  | .exhausted => "exhausted"
  | .revoked => "revoked"

/-- What a link shares. -/
structure PublicShareAccessResponse where
  encryptedItemData : String
  encryptionIv : String
  encryptedShareKey : String
  shareKeyIv : String
deriving DecidableEq, Repr

structure ShareAllowedEmail where
  email : String
  verified : Bool
deriving DecidableEq, Repr

structure ShareLink where
  id : String
  tokenHash : String
  status : ShareLinkStatus
  accessMode : ShareLinkAccessMode
  isOneTimeUse : Bool
  content : PublicShareAccessResponse
  accessCount : Nat
  maxAccessCount : Option Nat
  expiresAt : Time
  lastAccessedAt : Option Time
  allowedEmails : List ShareAllowedEmail
deriving DecidableEq, Repr

structure ShareAccessLog where
  shareLinkId : String
  accessedByEmail : Option String
  success : Bool
  failureReason : Option String
deriving DecidableEq, Repr

structure CreateShareLink where
  id : String
  token : String
  accessMode : ShareLinkAccessMode
  isOneTimeUse : Bool
  expiresAt : Time
  allowedEmails : List String
  content : PublicShareAccessResponse
deriving DecidableEq, Repr

def toAsciiLowercase (s : String) : String := s.map Char.toLower

namespace ShareLink

/-- The row that `create_share_link` inserts. -/
def new (hashToken : String → String) (input : CreateShareLink) : ShareLink where
  id := input.id
  tokenHash := hashToken input.token
  status := .active
  accessMode := input.accessMode
  isOneTimeUse := input.isOneTimeUse
  content := input.content
  accessCount := 0
  maxAccessCount := if input.isOneTimeUse then some 1 else none
  expiresAt := input.expiresAt
  lastAccessedAt := none
  allowedEmails :=
    if input.accessMode = .emailRestricted then input.allowedEmails.map (⟨toAsciiLowercase ·, false⟩) else []

variable (r : ShareLink)

/-- The condition of `consume_share_link_access`. -/
def isConsumable (id : String) (now : Time) : Bool :=
  r.id = id && r.status = .active && decide (now < r.expiresAt) && r.maxAccessCount.all (decide <| r.accessCount < ·)

/-- What it writes. -/
def access (now : Time) : ShareLink :=
  { r with
    accessCount := r.accessCount + 1
    lastAccessedAt := some now
    status := if r.maxAccessCount.any (decide <| · ≤ r.accessCount + 1) then .exhausted else r.status }

def revoke : ShareLink := { r with status := .revoked }

def markVerified (email : String) : ShareLink :=
  { r with allowedEmails := r.allowedEmails.map fun e =>
      if toAsciiLowercase e.email = toAsciiLowercase email then { e with verified := true } else e }

def isAllowed (email : String) : Bool := r.allowedEmails.any fun e => toAsciiLowercase e.email = email

end ShareLink

abbrev ShareLinks := Table ShareLink.id

/-- Why a link is not valid, in the order in which it is asked. -/
inductive InvalidShare
  | disabled
  | revoked
  | expired
  | exhausted
deriving DecidableEq, Repr

/-- `get_public_share_state`, for a link as it was loaded. -/
def getPublicShareState (enabled : Bool) (link : ShareLink) (now : Time) : Option InvalidShare :=
  if ¬ enabled then some .disabled
  else if link.status = .revoked then some .revoked
  else if link.expiresAt < now then some .expired
  else if link.maxAccessCount.any (decide <| · ≤ link.accessCount) then some .exhausted
  else none

/-! ## Requests -/

abbrev ShareAnswer := Except AppError PublicShareAccessResponse

def RATE_LIMITED_MESSAGE : String := "Too many requests. Please try again later."

/-- What a request does next, with the link as it has loaded it. -/
inductive ShareAwait
  | load
  | entitlement (link : ShareLink)
  | consumeAccess (link : ShareLink)
  /-- The verification of the code, with the access of the link before the code is used up. -/
  | verify (link : ShareLink) (now : Time) (code : CodeRequest)
  | markVerified (link : ShareLink)
  | log (link : ShareLink) (entry : ShareAccessLog) (answer : ShareAnswer)
  /-- Nothing if the request has failed. -/
  | ended (answer : Option ShareAnswer)
deriving DecidableEq

/-- `access_public`, or `verify_email_and_access` with an email and a code. -/
structure ShareRequest where
  token : String
  verified : Option (String × String)
  await : ShareAwait
deriving DecidableEq

namespace ShareRequest

/-- A refusal is logged first. -/
def refuse (t : ShareRequest) (link : ShareLink) (reason : String) (error : AppError) : ShareAwait :=
  .log link ⟨link.id, t.verified.map (·.1), false, some reason⟩ (.error error)

def grant (t : ShareRequest) (link : ShareLink) : ShareAwait :=
  .log link ⟨link.id, t.verified.map (·.1), true, none⟩ (.ok link.content)

def noLongerValid : AppError := .badRequest "This share link is no longer valid"

/-- `access_public` after the state of the link is known. -/
def publicState (t : ShareRequest) (link : ShareLink) : Option InvalidShare → ShareAwait
  | some .disabled => t.refuse link "Share links disabled for creator plan" noLongerValid
  | some .revoked =>
    t.refuse link s!"Link status: {link.status.text}" (.badRequest s!"This share link has been {link.status.text}")
  | some .expired => t.refuse link "Link expired" (.badRequest "This share link has expired")
  | some .exhausted => t.refuse link "Access limit reached" (.badRequest "This share link has been exhausted")
  | none => .consumeAccess link

/-- `verify_email_and_access` after the state of the link is known. -/
def verifiedState (t : ShareRequest) (link : ShareLink) (now : Time) (email code : String) :
    Option InvalidShare → ShareAwait
  | some .disabled => t.refuse link "Share links disabled for creator plan" noLongerValid
  | some _ => t.refuse link "Link no longer valid" noLongerValid
  | none =>
    if link.isAllowed (toAsciiLowercase email) then
      .verify link now ⟨.shareEmail link.id, toAsciiLowercase email, .isLocked code⟩
    else
      t.refuse link "Email no longer authorized for this link"
        (.forbidden "This email is not authorized to access this link")

def invalidCode : AppError := .badRequest "Invalid or expired verification code"

/-- What follows from where the verification has got to. -/
def verification (t : ShareRequest) (link : ShareLink) (now : Time) (code : CodeRequest) : ShareAwait :=
  match code.await with
  | .ended (some (.valid _)) => .markVerified link
  | .ended (some .invalid) => t.refuse link "Invalid or expired verification code" invalidCode
  | .ended (some .exhausted) =>
    t.refuse link "Max verification attempts exceeded"
      ⟨.tooManyRequests, "Maximum verification attempts exceeded. Please request a new code."⟩
  | .ended (some .locked) | .ended (some .lockoutTriggered) =>
    t.refuse link "Verification lockout" ⟨.tooManyRequests, RATE_LIMITED_MESSAGE⟩
  | .ended none => .ended none
  | _ => .verify link now code

/-- `consume_share_link_access`, and what follows. -/
def consume (t : ShareRequest) (links : ShareLinks) (link : ShareLink) (now : Time) (next : ShareAwait) :
    ShareLinks × ShareAwait :=
  if links.any (·.isConsumable link.id now) then
    (links.updateWhere (·.isConsumable link.id now) (·.access now), next)
  else
    (links, t.refuse link "Access limit reached" (.badRequest "This share link has reached its access limit"))

/-- The next statement of a request; `ok` is what the plan or the limiter answers. -/
def resume (hashToken : String → String) (links : ShareLinks) (codes : Codes) (ok : Bool) (now : Time)
    (t : ShareRequest) : Option ((ShareLinks × Codes × List CodeEvent) × ShareAwait) :=
  match t.await with
  | .load =>
    some ((links, codes, []),
      if t.verified.any (!isValidCode ·.2) then .ended (some (.error invalidCode))
      else
        match (links.select fun r =>
            r.tokenHash = hashToken t.token && (t.verified.isSome || r.accessMode = .anyone)).head? with
        | none => .ended (some (.error (.notFound "Share link not found")))
        | some link => .entitlement link)
  | .entitlement link =>
    let state := getPublicShareState ok link now
    some ((links, codes, []),
      match t.verified with
      | none => t.publicState link state
      | some (email, code) => t.verifiedState link now email code state)
  | .consumeAccess link =>
    let (links', await) := t.consume links link now (t.grant link)
    some ((links', codes, []), await)
  | .verify link started code =>
    match code.await with
    | .access id =>
      -- the time is the one from before the verification
      let (links', await) := t.consume links link started (.verify link started { code with await := .consume id })
      some ((links', codes, []), await)
    | _ =>
      (code.resume hashToken codes ok now).map fun (x, await) =>
        ((links, x.1, x.2), t.verification link started { code with await := await })
  | .markVerified link =>
    some ((links.updateWhere (·.id = link.id) (·.markVerified ((t.verified.map (·.1)).getD "")), codes, []),
      t.grant link)
  | .log _ _ answer => some ((links, codes, []), .ended (some answer))
  | .ended _ => none

/-- The link a request has counted an access of, and not yet returned or given up. -/
def holds (t : ShareRequest) : Option String :=
  match t.await with
  | .verify link _ code =>
    match code.await with
    | .consume _ => some link.id
    | _ => none
  | .markVerified link => some link.id
  | .log link _ (.ok _) => some link.id
  | _ => none

end ShareRequest

/-! ## Runs -/

inductive ShareLabel
  | create (input : CreateShareLink)
  | revoke (id : String)
  | accessPublic (token : String)
  | verifyEmailAndAccess (token email code : String)
  | resume (request : Nat) (ok : Bool)
  /-- The statement of a request fails, or its client goes away. -/
  | fail (request : Nat)
  /-- `request_email_verification`, once it issues a code. -/
  | issue (shareLinkId email id code : String)
  | resumeIssue (request : Nat) (ok : Bool)
deriving DecidableEq, Repr

/-- A return of the content: the row of the link at that time. -/
structure ShareReturn where
  link : ShareLink
  time : Time
deriving DecidableEq

structure ShareState where
  clock : Time
  links : ShareLinks
  codes : Codes
  requests : List ShareRequest
  issues : List CodeRequest
  logs : List ShareAccessLog
  /-- A record. -/
  returned : List ShareReturn
  /-- The links of the accesses that were counted and never returned (a record). -/
  lost : List String

namespace ShareState

variable (q : ShareState)

def initial : ShareState := ⟨0, .empty, .empty, [], [], [], [], []⟩

def start (t : ShareRequest) : ShareState := { q with requests := q.requests ++ [t] }

/-- A request goes on from `t` to `t'`: what it logs, returns and loses. -/
def goOn (k : Nat) (t t' : ShareRequest) : ShareState :=
  { q with
    requests := q.requests.set k t'
    logs := match t.await, t'.await with
      | .log _ entry _, .ended (some _) => entry :: q.logs
      | _, _ => q.logs
    returned := match t.holds, t'.await with
      | some id, .ended (some (.ok _)) => ((q.links.get? id).map (⟨·, q.clock⟩)).toList ++ q.returned
      | _, _ => q.returned
    lost := match t.holds, t'.holds, t'.await with
      | some _, none, .ended (some (.ok _)) => q.lost
      | some id, none, _ => id :: q.lost
      | _, _, _ => q.lost }

/-- One statement, at the time of the clock. -/
def step (hashToken : String → String) : ShareLabel → Option ShareState
  | .create input => do
    let links ← q.links.insert (.new hashToken input)
    return { q with links := links }
  | .revoke id => some { q with links := q.links.updateWhere (·.id = id) ShareLink.revoke }
  | .accessPublic token => some (q.start ⟨token, none, .load⟩)
  | .verifyEmailAndAccess token email code => some (q.start ⟨token, some (email, code), .load⟩)
  | .resume k ok => do
    let t ← q.requests[k]?
    let ((links, codes, _), await) ← t.resume hashToken q.links q.codes ok q.clock
    return { q with links := links, codes := codes }.goOn k t { t with await := await }
  | .fail k => do
    let t ← q.requests[k]?
    match t.await with
    | .ended _ => none
    | _ => return q.goOn k t { t with await := .ended none }
  | .issue shareLinkId email id code =>
    some { q with issues := q.issues ++
      [⟨.shareEmail shareLinkId, email, .insert id (hashToken code) (q.clock + VERIFICATION_CODE_TTL)⟩] }
  | .resumeIssue k ok => do
    let t ← q.issues[k]?
    let ((codes, _), await) ← t.resume hashToken q.codes ok q.clock
    return { q with codes := codes, issues := q.issues.set k { t with await := await } }

end ShareState

/-- The clock never goes back. -/
def shareLinks (hashToken : String → String) : System ShareState (Time × ShareLabel) where
  init q := q = .initial
  step q a := if q.clock ≤ a.1 then { q with clock := a.1 }.step hashToken a.2 else none

end Bittery
