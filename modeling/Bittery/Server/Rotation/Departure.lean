/-
Leaving a team, of one's own will or removed by a manager: `domains/vaults/rotation/departure.rs`.

Every team vault the target holds a key of is rotated, each with a plan prepared for it,
and the target gets a personal team, all in one SERIALIZABLE transaction.

Left out: the audit records and the billing seats, which are synchronized after the commit.
-/
import Bittery.Server.Rotation.Membership

namespace Bittery

open Lib

inductive Intent
  | voluntary | administrative
deriving DecidableEq, Repr

def Intent.context (intent : Intent) (teamId : String) : String :=
  "team_member_departure:" ++ (match intent with | voluntary => "voluntary" | administrative => "administrative") ++
    ":" ++ teamId

/-- `authorize`. -/
def authorizeDeparture (intent : Intent) (actor target : TeamRole) (sameUser : Bool) (teamType : TeamType) :
    Except AppError Unit :=
  if teamType = .personal then .error (.badRequest "You cannot leave a personal team.")
  else
    match intent with
    | .voluntary =>
      if ¬ sameUser then .error (.badRequest "Voluntary departure must target the current Member")
      else if target = .owner then .error (.badRequest "The team owner cannot leave. Transfer ownership first.")
      else .ok ()
    | .administrative =>
      if sameUser then .error (.badRequest "You cannot remove yourself from the team")
      else if ¬ actor.canManage then .error (.forbidden "Insufficient permissions")
      else if target = .owner then .error (.forbidden "The team owner cannot be removed")
      else .ok ()

def authorizeEntitlement (mode : DeploymentMode) (intent : Intent) (plan : BillingPlan) (status : BillingStatus) :
    Except AppError Unit :=
  if intent = .voluntary ∨ teamManagementEnabled mode plan status then .ok ()
  else .error (.forbidden "Team management is only available on Family or Team plans with active billing.")

/-- The actor, the target and their common team. -/
def loadDeparture (db : Db) (teamId actorId targetId : String) : Option (User × User × Team) :=
  match db.users.get? actorId, db.users.get? targetId, db.teams.get? teamId with
  | some actor, some target, some team =>
    if actor.teamId = some teamId ∧ target.teamId = some teamId then some (actor, target, team) else none
  | _, _, _ => none

/-- The vaults of the team the target holds a key of. -/
def affectedVaults (db : Db) (teamId targetId : String) : List String :=
  (db.vaults.select fun v => v.teamId = some teamId && db.holdsKey targetId v.id).map (·.id)

/-- Those of them the actor manages. -/
def managedVaults (db : Db) (teamId actorId targetId : String) : List String :=
  (affectedVaults db teamId targetId).filter fun v =>
    db.vaultKeys.any fun k => k.vaultId = v && k.userId = actorId && k.role.canManage

/-- Equality of two lists as sets. -/
def sameSet (a b : List String) : Bool := (a.all fun x => decide (x ∈ b)) && b.all fun x => decide (x ∈ a)

/-- One plan of `create_plans`: each is created in a transaction of its own, for a vault
that was affected when the checks were made. -/
def createDeparturePlan (mode : DeploymentMode) (seen : Db) (tx : Versions Db) (now : Time) (planId : String)
    (teamId actorId targetId : String) (intent : Intent) (vaultId : String) : Except AppError Db :=
  match loadDeparture seen teamId actorId targetId with
  | none => .error (.notFound "Team member not found")
  | some (actor, target, team) => do
    authorizeDeparture intent actor.role target.role (actorId = targetId) team.type
    authorizeEntitlement mode intent team.billingPlan team.billingStatus
    if intent = .administrative ∧
        ¬ sameSet (managedVaults seen teamId actorId targetId) (affectedVaults seen teamId targetId) then
      throw (.forbidden "You cannot remove this member from only part of their team vault access.")
    if vaultId ∉ affectedVaults seen teamId targetId then throw (.internal "Member departure operation failed")
    createPlan tx now planId ⟨vaultId, actorId, REASON, intent.context teamId, some targetId⟩

/-- `exact_plan_set`, on the vaults of the supplied plans. -/
def exactPlanSet (expected supplied : List String) : Except AppError Unit :=
  if ¬ supplied.Nodup then .error (.badRequest "Duplicate Vault Rotation plans are not allowed.")
  else if ¬ sameSet supplied expected then
    .error (.badRequest "Rotation plans must exactly cover every affected Vault.")
  else .ok ()

def departureRetryable : String := "A concurrent update interrupted the departure. Retry the request."
def departureFailed : String := "Member departure operation failed"

/-- The plans of a departure, locked, and found to be made for it. -/
def lockDeparturePlans (tx : Versions Db) (begun : Time) (teamId actorId targetId : String) (intent : Intent)
    (expected planIds : List String) : Except AppError Unit := do
  let policies ← planIds.mapM fun planId =>
    (lockPlanPolicy tx begun planId).mapError (finalizeError departureRetryable departureFailed)
  exactPlanSet expected (policies.map (·.vaultId))
  if policies.any fun p => p.initiatorUserId ≠ actorId || p.excludedUserId ≠ some targetId || p.reason ≠ REASON ||
      p.authorizationContext ≠ intent.context teamId then
    throw (.badRequest "A Rotation plan does not match this Member departure")

/-- What the target is left with: no session, and a personal team of their own. -/
def moveToPersonalTeam (tx : Versions Db) (target : User) (personalTeamId : String) : Option (Versions Db) := do
  let tx ← Db.sessionsTable.delete tx fun s => s.userId = target.id
  let tx ← Db.teamsTable.insert tx
    { id := personalTeamId, name := target.name ++ "'s Team", ownerId := target.id, type := .personal,
      billingPlan := .free, billingStatus := .none }
  Db.usersTable.update tx (fun u => u.id = target.id)
    (fun u => { u with teamId := some personalTeamId, role := .owner }) fun _ => rfl

structure DepartureResult where
  personalTeamId : String
  rotations : List RotationResult
deriving DecidableEq, Repr

/-- The plans of a departure one after the other; `rotationIds` are the ids of the records. -/
def finalizePlans (now : Time) (actorId : String) : List (String × String) → Versions Db →
    Except Aborted (Versions Db × List RotationResult)
  | [], tx => .ok (tx, [])
  | (planId, rotationId) :: rest, tx => do
    let (tx, rotation) ← (finalizeLockedPlan tx now planId actorId rotationId).mapError
      (Aborted.ofFinalize departureRetryable departureFailed planId)
    let (tx, rotations) ← finalizePlans now actorId rest tx
    return (tx, rotation :: rotations)

/-- The transaction of `finalize`. Each supplied plan comes with the id its record will get. -/
def finalizeDepartureTx (mode : DeploymentMode) (tx : Versions Db) (begun now : Time) (teamId actorId targetId : String)
    (intent : Intent) (plans : List (String × String)) (personalTeamId : String) :
    Except Aborted (Versions Db × DepartureResult) := do
  match loadDeparture tx.snapshot teamId actorId targetId with
  | none => throw (.failed (.conflict "Team membership changed while departure was prepared"))
  | some (actor, target, team) =>
    (orConflict (do
      Db.usersTable.lock tx fun u => u.id = actorId || u.id = targetId
      Db.teamsTable.lock tx fun t => t.id = teamId)).mapError fun _ => .failed .retryableConflict
    (authorizeDeparture intent actor.role target.role (actorId = targetId) team.type).mapError .failed
    (authorizeEntitlement mode intent team.billingPlan team.billingStatus).mapError .failed
    let expected := affectedVaults tx.snapshot teamId targetId
    if intent = .administrative ∧ ¬ sameSet (managedVaults tx.snapshot teamId actorId targetId) expected then
      throw (.failed (.forbidden "You cannot remove this member from only part of their team vault access."))
    (lockDeparturePlans tx begun teamId actorId targetId intent expected (plans.map (·.1))).mapError .failed
    let (tx, rotations) ← finalizePlans now actorId plans tx
    match moveToPersonalTeam tx target personalTeamId with
    | none => throw (.failed .retryableConflict)
    | some tx => return (tx, ⟨personalTeamId, rotations⟩)

/-- `finalize`: a departure, or the mark of the plan that was found stale. -/
def finalizeDeparture (mode : DeploymentMode) (tx : Versions Db) (begun now : Time) (teamId actorId targetId : String)
    (intent : Intent) (plans : List (String × String)) (personalTeamId : String) : Db × Except AppError DepartureResult :=
  commitOrRollback tx.current
    (finalizeDepartureTx mode tx begun now teamId actorId targetId intent plans personalTeamId)

end Bittery
