/-
Admissions: `signup` and `signup_with_invitation` of `domains/auth/registration.rs`, and
`domains/teams/invitations.rs`.

A request runs one statement at a time, and at each await any other request can go on. Its last
statement, or its transaction, writes what the earlier ones have led to, by the id of the row
alone. What the check of the pending vault keys answers comes with the label; the rate limiter
and the signup verification only refuse, and what they refuse does not get here.

The state keeps, beside the tables, what has happened to the invitations (`history`, the latest
first). Accounts from before there were teams have none. Names, keys, vaults, sessions, seats
and `accepted_at` are left out.
-/
import Bittery.Lib.Runs
import Bittery.Lib.Table
import Bittery.Server.Billing

namespace Bittery

open Lib

/-! ## Rows -/

/-- The columns of a user that admissions read. -/
structure Account where
  id : String
  email : String
  teamId : Option String := none
  role : TeamRole := .member
  /-- It was created without an invitation, by `signup`. -/
  uninvited : Bool := false
deriving DecidableEq, Repr

structure LimitedTeam where
  id : String
  ownerId : String
  type : TeamType
  memberLimit : Option Nat
  billingPlan : BillingPlan
  billingStatus : BillingStatus
deriving DecidableEq, Repr

inductive InvitationStatus
  | pending | accepted | declined | expired
deriving DecidableEq, Repr

structure TeamInvitation where
  id : String
  teamId : String
  email : String
  role : TeamRole
  invitedById : String
  tokenHash : String
  status : InvitationStatus := .pending
  expiresAt : Time
deriving DecidableEq, Repr

def INVITATION_TTL : Time := 7 * 24 * 60 * 60 * 1000

namespace TeamInvitation

def setStatus (status : InvitationStatus) (r : TeamInvitation) : TeamInvitation := { r with status }

/-- A new token, which makes the invitation pending again. -/
def reopen (tokenHash : String) (expiresAt : Time) (r : TeamInvitation) : TeamInvitation :=
  { r with tokenHash, expiresAt, status := .pending }

def isPendingIn (teamId : String) (r : TeamInvitation) : Bool := r.teamId = teamId && r.status = .pending

end TeamInvitation

structure AdmissionConfig where
  mode : DeploymentMode
  cloudPublicSignup : Bool
  cloudBilling : Bool
  hashToken : String → String
  trim : String → String
  lowercase : String → String

/-- `normalize_email`. -/
def AdmissionConfig.normalize (config : AdmissionConfig) (email : String) : String := config.lowercase (config.trim email)

def planMemberLimit : BillingPlan → Option Nat
  | .free | .personal => some 1
  | .family => some 6
  | .team => none

def mapPlanToTeamType : BillingPlan → TeamType
  | .family => .family
  | .team => .organization
  | .free | .personal => .personal

def normalizeSignupPlan (normalize : String → String) : Option String → Option BillingPlan
  | none => some .personal
  | some plan => parsePlanId (some (normalize plan))

structure AdmissionTables where
  accounts : Table Account.id := .empty
  teams : Table LimitedTeam.id := .empty
  invitations : Table TeamInvitation.id := .empty
deriving DecidableEq

/-! ## What requests write -/

/-- The last statement of a request, or its transaction; an invitation is there as it was read. -/
inductive AdmissionWrite
  | signup (account : Account) (team : LimitedTeam)
  | signupWithInvitation (account : Account) (invitation : TeamInvitation)
  | accept (userId : String) (invitation : TeamInvitation)
  | expire (invitation : TeamInvitation)
  | decline (invitation : TeamInvitation)
  | cancel (invitationId : String)
  | resend (invitationId tokenHash : String) (expiresAt : Time)
  | send (invitation : TeamInvitation)
deriving DecidableEq, Repr

/-- What has happened to an invitation. -/
inductive InvitationFact
  /-- A joining transaction has committed; the row as it was then. -/
  | accepted (invitationId accountId : String) (found : Option TeamInvitation) (now : Time)
  | declined (invitationId : String)
  | cancelled (invitationId : String)
deriving DecidableEq, Repr

namespace InvitationFact

def admits (id : String) : InvitationFact → Bool
  | accepted invitationId _ _ _ => invitationId = id
  | declined _ | cancelled _ => false

/-- No invitation admits anyone after that. -/
def closes (id : String) : InvitationFact → Bool
  | accepted invitationId _ _ _ | declined invitationId | cancelled invitationId => invitationId = id

end InvitationFact

namespace AdmissionTables

variable (db : AdmissionTables)

/-- The members of a team. -/
def members (teamId : String) : Nat := db.accounts.count (·.teamId = some teamId)

def pendingInvitations (teamId : String) : Nat := db.invitations.count (·.isPendingIn teamId)

/-- `insert_user_account`; the email is unique. -/
def insertAccount (account : Account) : Except AppError (Table Account.id) :=
  if db.accounts.any (·.email = account.email) then throw (.badRequest "Unable to create account")
  else
    match db.accounts.insert account with
    | none => throw (.badRequest "Unable to create account")
    | some accounts => pure accounts

def setTeam (userId teamId : String) (role : TeamRole) : Table Account.id :=
  db.accounts.updateWhere (·.id = userId) fun r => { r with teamId := some teamId, role }

def setStatus (invitationId : String) (status : InvitationStatus) : Table TeamInvitation.id :=
  db.invitations.updateWhere (·.id = invitationId) (·.setStatus status)

def reopen (invitationId tokenHash : String) (expiresAt : Time) : Table TeamInvitation.id :=
  db.invitations.updateWhere (·.id = invitationId) (·.reopen tokenHash expiresAt)

/-- A statement or a transaction, with the error of a unique or a foreign key that refuses it. -/
def write : AdmissionWrite → Except AppError AdmissionTables
  | .signup account team => do
    let accounts ← db.insertAccount { account with teamId := some team.id, role := .owner, uninvited := true }
    match db.teams.insert team with
    | none => throw (.internal "Failed to create team")
    | some teams => pure { db with accounts, teams }
  | .signupWithInvitation account invitation => do
    let accounts ←
      db.insertAccount { account with teamId := some invitation.teamId, role := invitation.role, uninvited := false }
    if (db.teams.get? invitation.teamId).isNone then throw (.internal "Failed to link invited user to team")
    else pure { db with accounts, invitations := db.setStatus invitation.id .accepted }
  | .accept userId invitation =>
    if (db.accounts.get? userId).isSome ∧ (db.teams.get? invitation.teamId).isNone then
      throw (.internal "Failed to update team membership")
    else
      pure { db with
        accounts := db.setTeam userId invitation.teamId invitation.role
        invitations := db.setStatus invitation.id .accepted }
  | .expire invitation => pure { db with invitations := db.setStatus invitation.id .expired }
  | .decline invitation => pure { db with invitations := db.setStatus invitation.id .declined }
  | .cancel invitationId => pure { db with invitations := db.invitations.deleteWhere (·.id = invitationId) }
  | .resend invitationId tokenHash expiresAt =>
    pure { db with invitations := db.reopen invitationId tokenHash expiresAt }
  | .send invitation =>
    if (db.teams.get? invitation.teamId).isNone ∨ (db.accounts.get? invitation.invitedById).isNone then
      throw (.internal "Failed to create invitation")
    else
      match db.invitations.insert invitation with
      | none => throw (.internal "Failed to create invitation")
      | some invitations => pure { db with invitations }

/-- What a write that has committed is on record as. -/
def fact (now : Time) : AdmissionWrite → Option InvitationFact
  | .signupWithInvitation account invitation =>
    some (.accepted invitation.id account.id (db.invitations.get? invitation.id) now)
  | .accept userId invitation => some (.accepted invitation.id userId (db.invitations.get? invitation.id) now)
  | .decline invitation => some (.declined invitation.id)
  | .cancel invitationId => some (.cancelled invitationId)
  | .signup _ _ | .expire _ | .resend _ _ _ | .send _ => none

end AdmissionTables

/-! ## Requests -/

structure SignupInput where
  userId : String
  email : String
  plan : Option String
  /-- The id that is generated for the new team. -/
  teamId : String
deriving DecidableEq, Repr

structure InvitedSignupInput where
  userId : String
  email : String
  token : String
deriving DecidableEq, Repr

/-- By its token, or by its id from the list of pending invitations. -/
inductive InvitationKey
  | token (token : String)
  | id (invitationId : String)
deriving DecidableEq, Repr

inductive InvitationAnswer
  | accept | decline
deriving DecidableEq, Repr

inductive InvitationAction
  | cancel
  /-- With the new token. -/
  | resend (token : String)
deriving DecidableEq, Repr

structure SendInput where
  actorId : String
  teamId : String
  email : String
  role : TeamRole
  /-- The id and the token that are generated. -/
  invitationId : String
  token : String
deriving DecidableEq, Repr

/-- What a request does next, with the locals that are used from there on. -/
inductive AdmissionAwait
  | hasAnyRegisteredUser (input : SignupInput)
  | ensureUserDoesNotExist (input : SignupInput)
  | getPendingSignupInvitation (input : InvitedSignupInput)
  | ensureInviteeDoesNotExist (input : InvitedSignupInput) (invitation : TeamInvitation) (memberLimit : Option Nat)
  | countCurrentMembers (input : InvitedSignupInput) (invitation : TeamInvitation) (memberLimit : Nat)
  | authorizeSignupKeys (input : InvitedSignupInput) (invitation : TeamInvitation)
  | loadPendingInvitation (userId : String) (key : InvitationKey) (answer : InvitationAnswer)
  | loadInvitee (userId : String) (invitation : TeamInvitation) (answer : InvitationAnswer)
  | authorizeAcceptKeys (userId : String) (invitation : TeamInvitation)
  | loadManaged (actorId invitationId : String) (action : InvitationAction)
  | loadManager (actorId : String) (invitation : TeamInvitation) (entitled : Bool) (action : InvitationAction)
  | loadSender (input : SendInput)
  | loadTeam (input : SendInput)
  | countMembers (input : SendInput) (memberLimit : Nat)
  | countPending (input : SendInput) (memberLimit currentMembers : Nat)
  | loadExistingUser (input : SendInput)
  | hasPendingInvitation (input : SendInput)
  | authorizeSendKeys (input : SendInput)
  /-- The statement that writes, and the error the request ends with all the same. -/
  | write (w : AdmissionWrite) (error : Option AppError)
  | ended (error : Option AppError)
deriving DecidableEq, Repr

namespace AdmissionConfig

variable (config : AdmissionConfig)

/-- The entitlement of a team to manage its members. -/
def entitled (team : LimitedTeam) : Bool := teamManagementEnabled config.mode team.billingPlan team.billingStatus

def emailsMatch (invitationEmail normalizedEmail : String) : Bool := config.normalize invitationEmail = normalizedEmail

def selectedPlan (input : SignupInput) : Option BillingPlan :=
  if config.mode = .selfHosted ∨ ¬ config.cloudBilling then some .free
  else normalizeSignupPlan config.normalize input.plan

/-- The team that `signup` inserts. -/
def signupTeam (input : SignupInput) (selectedPlan : BillingPlan) : LimitedTeam :=
  { id := input.teamId, ownerId := input.userId
    type := if config.mode = .selfHosted then .organization else mapPlanToTeamType selectedPlan
    memberLimit := if config.mode = .selfHosted then none else planMemberLimit selectedPlan
    billingPlan := selectedPlan
    billingStatus := if selectedPlan.isPaid then .incomplete else .none }

/-- `signup` up to its first statement. -/
def beginSignup (input : SignupInput) : AdmissionAwait :=
  if config.mode = .selfHosted then .hasAnyRegisteredUser input
  else if ¬ config.cloudPublicSignup then
    .ended (some (.forbidden "Hosted beta signup is invite-only. Join the waitlist or ask for an invite link."))
  else .ensureUserDoesNotExist input

end AdmissionConfig

namespace AdmissionTables

variable (db : AdmissionTables)

/-- A pending invitation with its team. -/
def loadPending (p : TeamInvitation → Bool) : Option (TeamInvitation × LimitedTeam) := do
  let invitation ← (db.invitations.select fun r => p r && r.status = .pending).head?
  let team ← db.teams.get? invitation.teamId
  return (invitation, team)

def accountWithEmail (email : String) : Option Account := (db.accounts.select (·.email = email)).head?

end AdmissionTables

def InvitationKey.matches (hashToken : String → String) : InvitationKey → TeamInvitation → Bool
  | .token value, r => r.tokenHash = hashToken value
  | .id invitationId, r => r.id = invitationId

def invitationNotFound : AppError := .notFound "Invitation not found or already used"
def invitationExpired : AppError := .badRequest "Invitation has expired"
def memberLimitReached : AppError := .badRequest "Team has reached member limit"
def teamManagementUnavailable : AppError :=
  .forbidden "Team management is only available on Family or Team plans with active billing."
def notAMember : AppError := .forbidden "You are not a member of this team"
def insufficientPermissions : AppError := .forbidden "Insufficient permissions"

namespace AdmissionAwait

/-- The statement has been answered with an error. -/
def refuse (error : AppError) : AdmissionAwait := .ended (some error)

/-- What follows the count of the members in a signup with an invitation. -/
def afterExistence (input : InvitedSignupInput) (invitation : TeamInvitation) : Option Nat → AdmissionAwait
  | some memberLimit => .countCurrentMembers input invitation memberLimit
  | none => .authorizeSignupKeys input invitation

/-- The next statement of a request, and what the request does then. The writes are not run here. -/
def resume (config : AdmissionConfig) (db : AdmissionTables) (ok : Bool) (now : Time) :
    AdmissionAwait → Option AdmissionAwait
  | .hasAnyRegisteredUser input =>
    some (if db.accounts.any fun _ => true then
        .refuse (.forbidden "Public registration is disabled. Ask an admin for an invite link.")
      else .ensureUserDoesNotExist input)
  | .ensureUserDoesNotExist input =>
    some (if db.accounts.any fun r => config.lowercase r.email = config.normalize input.email then
        .refuse (.badRequest "Unable to create account")
      else
        match config.selectedPlan input with
        | none => .refuse (.badRequest "Invalid plan")
        | some selectedPlan =>
          .write (.signup { id := input.userId, email := config.normalize input.email }
            (config.signupTeam input selectedPlan)) none)
  | .getPendingSignupInvitation input =>
    some (match db.loadPending fun r => r.tokenHash = config.hashToken input.token with
      | none => .refuse invitationNotFound
      | some (invitation, team) =>
        if ¬ config.entitled team then
          .refuse (.forbidden "This team cannot accept invitations on its current plan or billing status.")
        else if invitation.expiresAt < now then .refuse invitationExpired
        else if ¬ config.emailsMatch invitation.email (config.normalize input.email) then
          .refuse (.badRequest "Email does not match invitation")
        else .ensureInviteeDoesNotExist input invitation team.memberLimit)
  | .ensureInviteeDoesNotExist input invitation memberLimit =>
    some (if db.accounts.any fun r => config.lowercase r.email = config.normalize input.email then
        .refuse (.badRequest "Unable to create account")
      else .afterExistence input invitation memberLimit)
  | .countCurrentMembers input invitation memberLimit =>
    some (if memberLimit ≤ db.members invitation.teamId then .refuse memberLimitReached
      else .authorizeSignupKeys input invitation)
  | .authorizeSignupKeys input invitation =>
    some (if ¬ ok then
        .refuse (.forbidden "You do not have permission to grant access for one or more vaults")
      else
        .write (.signupWithInvitation { id := input.userId, email := config.normalize input.email } invitation) none)
  | .loadPendingInvitation userId key answer =>
    some (match db.loadPending (key.matches config.hashToken) with
      | none => .refuse invitationNotFound
      | some (invitation, team) =>
        match answer with
        | .decline => .loadInvitee userId invitation .decline
        | .accept =>
          if invitation.expiresAt < now then .write (.expire invitation) (some invitationExpired)
          else if ¬ config.entitled team then .refuse teamManagementUnavailable
          else .loadInvitee userId invitation .accept)
  | .loadInvitee userId invitation answer =>
    some (match db.accounts.get? userId with
      | none => .refuse (.notFound "User not found")
      | some currentUser =>
        if currentUser.email ≠ invitation.email then .refuse (.forbidden "This invitation is not for you")
        else
          match answer with
          | .decline => .write (.decline invitation) none
          | .accept =>
            if currentUser.teamId.isSome then .refuse (.badRequest "You already belong to a team")
            else .authorizeAcceptKeys userId invitation)
  | .authorizeAcceptKeys userId invitation =>
    some (if ¬ ok then
        .refuse (.forbidden "You do not have permission to grant access for one or more vaults")
      else .write (.accept userId invitation) none)
  | .loadManaged actorId invitationId action =>
    some (match db.invitations.get? invitationId with
      | none => .refuse (.notFound "Invitation not found")
      | some invitation =>
        match db.teams.get? invitation.teamId with
        | none => .refuse (.notFound "Invitation not found")
        | some team => .loadManager actorId invitation (config.entitled team) action)
  | .loadManager actorId invitation entitled action =>
    some (if ¬ (db.accounts.get? actorId).any fun r => r.teamId = some invitation.teamId ∧ r.role.canManage then
        .refuse insufficientPermissions
      else if ¬ entitled then .refuse teamManagementUnavailable
      else
        match action with
        | .cancel => .write (.cancel invitation.id) none
        | .resend token => .write (.resend invitation.id (config.hashToken token) (now + INVITATION_TTL)) none)
  | .loadSender input =>
    some (match db.accounts.get? input.actorId with
      | none => .refuse notAMember
      | some actor =>
        if actor.teamId ≠ some input.teamId then .refuse notAMember
        else if ¬ actor.role.canManage then .refuse insufficientPermissions
        else .loadTeam input)
  | .loadTeam input =>
    some (match db.teams.get? input.teamId with
      | none => .refuse (.notFound "Team not found")
      | some team =>
        if ¬ config.entitled team then .refuse teamManagementUnavailable
        else
          match team.memberLimit with
          | some memberLimit => .countMembers input memberLimit
          | none => .loadExistingUser input)
  | .countMembers input memberLimit => some (.countPending input memberLimit (db.members input.teamId))
  | .countPending input memberLimit currentMembers =>
    some (if memberLimit ≤ currentMembers + db.pendingInvitations input.teamId then .refuse memberLimitReached
      else .loadExistingUser input)
  | .loadExistingUser input =>
    some (if (db.accountWithEmail input.email).any (·.teamId.isSome) then
        .refuse (.badRequest "This user already belongs to a team")
      else .hasPendingInvitation input)
  | .hasPendingInvitation input =>
    some (if db.invitations.any fun r => r.isPendingIn input.teamId && r.email = input.email then
        .refuse (.badRequest "An invitation is already pending for this email")
      else .authorizeSendKeys input)
  | .authorizeSendKeys input =>
    some (if ¬ ok then
        .refuse (.forbidden "You do not have permission to grant access for one or more vaults")
      else
        .write (.send
          { id := input.invitationId, teamId := input.teamId, email := input.email, role := input.role
            invitedById := input.actorId, tokenHash := config.hashToken input.token
            expiresAt := now + INVITATION_TTL }) none)
  | .write _ _ | .ended _ => none

end AdmissionAwait

/-! ## Runs -/

inductive AdmissionLabel
  | signup (input : SignupInput)
  | signupWithInvitation (input : InvitedSignupInput)
  | answer (userId : String) (key : InvitationKey) (answer : InvitationAnswer)
  | manage (actorId invitationId : String) (action : InvitationAction)
  | send (input : SendInput)
  | resume (request : Nat) (ok : Bool)
  /-- A webhook sets the plan and the status of a team. -/
  | bill (teamId : String) (billingPlan : BillingPlan) (billingStatus : BillingStatus)
  /-- A member leaves or is removed, into a personal team of its own. -/
  | depart (userId personalTeamId : String)
  | deleteTeam (userId personalTeamId : String)
  | deleteAccount (userId : String)
deriving DecidableEq, Repr

structure AdmissionState where
  clock : Time := 0
  tables : AdmissionTables := {}
  requests : List AdmissionAwait := []
  history : List InvitationFact := []

namespace AdmissionTables

variable (db : AdmissionTables)

/-- `create_personal_team_for_user`. -/
def createPersonalTeam (userId personalTeamId : String) : Option AdmissionTables := do
  let teams ← db.teams.insert ⟨personalTeamId, userId, .personal, some 1, .free, .none⟩
  return { db with teams, accounts := db.setTeam userId personalTeamId .owner }

def bill (teamId : String) (billingPlan : BillingPlan) (billingStatus : BillingStatus) : AdmissionTables :=
  { db with teams := db.teams.updateWhere (·.id = teamId) fun r => { r with billingPlan, billingStatus } }

/-- The transaction of `delete_team`. -/
def deleteTeam (userId personalTeamId : String) : Option AdmissionTables := do
  let actor ← db.accounts.get? userId
  let teamId ← actor.teamId
  let team ← db.teams.get? teamId
  if actor.role ≠ .owner ∨ team.type = .personal ∨ db.members teamId ≠ 1 then none
  else
    let db ← db.createPersonalTeam userId personalTeamId
    return { db with
      invitations := db.invitations.deleteWhere (·.teamId = teamId)
      teams := db.teams.deleteWhere (·.id = teamId) }

/-- The teams that an account owns go with it, and what refers to them or to the account; a
team that another account is in cannot go. -/
def deleteAccount (userId : String) : Option AdmissionTables :=
  let owned (teamId : String) : Bool := db.teams.any fun t => t.id = teamId && t.ownerId = userId
  if db.accounts.any fun r => r.id ≠ userId && r.teamId.any owned then none
  else
    some { accounts := db.accounts.deleteWhere (·.id = userId)
           teams := db.teams.deleteWhere (·.ownerId = userId)
           invitations := db.invitations.deleteWhere fun r => r.invitedById = userId || owned r.teamId }

end AdmissionTables

namespace AdmissionState

variable (q : AdmissionState)

/-- A request begins. -/
def start (t : AdmissionAwait) : AdmissionState := { q with requests := q.requests ++ [t] }

/-- The id of a new invitation is random: no invitation ever had it. -/
def isFresh : AdmissionWrite → Bool
  | .send invitation => q.history.all fun fact => !fact.closes invitation.id
  | _ => true

/-- A write that commits, or is refused by the database. -/
def commit (now : Time) (w : AdmissionWrite) : AdmissionState :=
  match q.tables.write w with
  | .error _ => q
  | .ok tables => { q with tables, history := (q.tables.fact now w).toList ++ q.history }

/-- A request's next statement. -/
def resume (config : AdmissionConfig) (now : Time) (k : Nat) (ok : Bool) : Option AdmissionState := do
  match ← q.requests[k]? with
  | .write w error =>
    if q.isFresh w then
      let outcome :=
        match q.tables.write w with
        | .error refused => some refused
        | .ok _ => error
      some { q.commit now w with requests := q.requests.set k (.ended outcome) }
    else none
  | t =>
    let t' ← t.resume config q.tables ok now
    return { q with requests := q.requests.set k t' }

def step (config : AdmissionConfig) (now : Time) : AdmissionLabel → Option AdmissionState
  | .signup input => some (q.start (config.beginSignup input))
  | .signupWithInvitation input => some (q.start (.getPendingSignupInvitation input))
  | .answer userId key answer => some (q.start (.loadPendingInvitation userId key answer))
  | .manage actorId invitationId action => some (q.start (.loadManaged actorId invitationId action))
  | .send input => some (q.start (.loadSender input))
  | .resume k ok => q.resume config now k ok
  | .bill teamId billingPlan billingStatus =>
    some { q with tables := q.tables.bill teamId billingPlan billingStatus }
  | .depart userId personalTeamId =>
    (q.tables.createPersonalTeam userId personalTeamId).map fun tables => { q with tables }
  | .deleteTeam userId personalTeamId =>
    (q.tables.deleteTeam userId personalTeamId).map fun tables => { q with tables }
  | .deleteAccount userId => (q.tables.deleteAccount userId).map fun tables => { q with tables }

end AdmissionState

/-- The clock never goes back. -/
def admissions (config : AdmissionConfig) : System AdmissionState (Time × AdmissionLabel) where
  init q :=
    q.requests = [] ∧ q.history = [] ∧ q.tables.teams = .empty ∧ q.tables.invitations = .empty ∧
      ∀ r ∈ q.tables.accounts.rows, r.teamId = none ∧ r.uninvited = false
  step q a := if q.clock ≤ a.1 then ({ q with clock := a.1 }).step config a.1 a.2 else none

end Bittery
