/-
Removing a member from a vault: `domains/vaults/rotation/membership.rs`.

A removal is authorized when its plan is created, and again in the transaction that
finalizes the plan. That transaction is rolled back on every error; a stale plan is then
marked in a transaction of its own.
-/
import Bittery.Server.Rotation.Plans
import Bittery.Server.Vaults

namespace Bittery

open Lib

/-- `REASON`, as both callers require it. -/
def REASON : RotationReason := .memberRemoved

def VAULT_MEMBER_REMOVAL_CONTEXT : String := "vault_member_removal"

def AppError.rotationStale (reason : StaleReason) : AppError :=
  { code := match reason with
      | .vaultVersion => .rotationStaleVaultVersion
      | .memberSet => .rotationStaleMemberSet
      | .itemState => .rotationStaleItemState
      | .attachmentState => .rotationStaleAttachmentState
    message := "Rotation plan is stale" }

/-- `finalize_error`, with the texts of a caller. -/
def finalizeError (retryable internal : String) : FinalizeError → AppError
  | .stale reason => .rotationStale reason
  | .incomplete => .conflict "Rotation plan is incomplete"
  | .invalidState => .conflict "Rotation plan is no longer active"
  | .retryableConflict => ⟨.retryableConflict, retryable⟩
  | .database => .internal internal

/-- How the transaction of a finalization ends when it does not commit. -/
inductive Aborted
  | failed (error : AppError)
  | stale (planId : String) (reason : StaleReason)
deriving DecidableEq, Repr

/-- The error of a finalization step, in the transaction of plan `planId`. -/
def Aborted.ofFinalize (retryable internal planId : String) : FinalizeError → Aborted
  | .stale reason => .stale planId reason
  | e => .failed (finalizeError retryable internal e)

/-- What an aborted transaction leaves: nothing but the mark of a stale plan. -/
def Aborted.rollback (db : Db) : Aborted → Db × AppError
  | .failed e => (db, e)
  | .stale planId reason => (recordStale db planId reason, .rotationStale reason)

/-- Runs a finalization on the database it commits to. -/
def commitOrRollback {α : Type} (db : Db) (x : Except Aborted (Versions Db × α)) : Db × Except AppError α :=
  match x with
  | .ok (tx, a) => (tx.current, .ok a)
  | .error e => ((e.rollback db).1, .error (e.rollback db).2)

def removalFinalizeError : FinalizeError → AppError :=
  finalizeError "A concurrent update interrupted the removal. Retry the request." "Vault membership operation failed"

/-- `authorize`. -/
def authorizeRemoval (actor target : VaultRole) (selfRemoval : Bool) : Except AppError Unit :=
  if selfRemoval then .error (.badRequest "Cannot remove yourself")
  else
    match memberRoleViolation actor target with
    | none => .ok ()
    | some .targetIsOwner => .error (.forbidden "Cannot remove vault owner")
    | some .adminManagingAdmin => .error (.forbidden "Admins cannot remove other admins")
    | some _ => .error (.forbidden "Insufficient permissions")

def authorizeVaultPolicy (mode : DeploymentMode) (vaultType : VaultType) (teamId : Option String)
    (plan : Option BillingPlan) (status : Option BillingStatus) : Except AppError Unit :=
  if vaultType ≠ .team ∨ teamId = none then .error (.badRequest "Only team vaults support removing members")
  else if (resolveVaultSharingEntitlement mode plan status).1 then .ok ()
  else .error (.forbidden
    "Shared vault management is only available on Family or Team plans with active billing.")

/-- The billing row of the team of a user. -/
def actorBilling (db : Db) (userId : String) : Option Team :=
  (db.users.get? userId).bind fun u => u.teamId.bind db.teams.get?

/-- The role of the first key of a user in a vault. -/
def roleIn (db : Db) (vaultId userId : String) : Option VaultRole :=
  (db.vaultKeys.rows.find? fun k => k.vaultId = vaultId && k.userId = userId).map (·.role)

/-- `create_removal_plan`; the checks read the pool. -/
def createRemovalPlan (mode : DeploymentMode) (seen : Db) (tx : Versions Db) (now : Time)
    (planId actorId vaultId targetId : String) : Except AppError Db :=
  match roleIn seen vaultId actorId, roleIn seen vaultId targetId with
  | none, _ => .error (.forbidden "Insufficient permissions")
  | _, none => .error (.notFound "Member not found")
  | some actor, some target => do
    authorizeRemoval actor target (actorId = targetId)
    match seen.vaults.get? vaultId with
    | none => throw (.forbidden "Insufficient permissions")
    | some vault =>
      let billing := actorBilling seen actorId
      authorizeVaultPolicy mode vault.type vault.teamId (billing.map (·.billingPlan)) (billing.map (·.billingStatus))
      createPlan tx now planId ⟨vaultId, actorId, REASON, VAULT_MEMBER_REMOVAL_CONTEXT, some targetId⟩

/-- The transaction of `finalize_removal`. The policy reads the clock of the transaction
(`begun`), the plan the clock of the server (`now`). -/
def finalizeRemovalTx (mode : DeploymentMode) (tx : Versions Db) (begun now : Time)
    (actorId vaultId targetId planId rotationId : String) : Except Aborted (Versions Db × RotationResult) := do
  let policy ← (lockPlanPolicy tx begun planId).mapError fun e => .failed (removalFinalizeError e)
  if policy.vaultId ≠ vaultId ∨ policy.initiatorUserId ≠ actorId ∨ policy.excludedUserId ≠ some targetId ∨
      policy.reason ≠ REASON ∨ policy.authorizationContext ≠ VAULT_MEMBER_REMOVAL_CONTEXT then
    throw (.failed (.badRequest "Rotation plan does not match this Vault Member removal"))
  match roleIn tx.snapshot vaultId actorId, roleIn tx.snapshot vaultId targetId, tx.snapshot.vaults.get? vaultId with
  | some actor, some target, some vault =>
    (orConflict (do
      Db.vaultKeysTable.lock tx fun k => k.vaultId = vaultId && (k.userId = actorId || k.userId = targetId)
      Db.vaultsTable.lock tx fun v => v.id = vaultId)).mapError fun _ => .failed .retryableConflict
    (authorizeRemoval actor target (actorId = targetId)).mapError .failed
    if vault.type ≠ .team ∨ vault.teamId = none then
      throw (.failed (.badRequest "Only team vaults support removing members"))
    let billing := actorBilling tx.snapshot actorId
    (orConflict (do
      Db.usersTable.lock tx fun u => u.id = actorId && billing.isSome
      Db.teamsTable.lock tx fun t => billing.any fun b => t.id = b.id)).mapError fun _ => .failed .retryableConflict
    (authorizeVaultPolicy mode vault.type vault.teamId (billing.map (·.billingPlan))
      (billing.map (·.billingStatus))).mapError .failed
    (finalizeLockedPlan tx now planId actorId rotationId).mapError
      (Aborted.ofFinalize "A concurrent update interrupted the removal. Retry the request."
        "Vault membership operation failed" planId)
  | _, _, _ => throw (.failed (.conflict "Vault membership changed while rotation was prepared"))

/-- `finalize_removal`. -/
def finalizeRemoval (mode : DeploymentMode) (tx : Versions Db) (begun now : Time)
    (actorId vaultId targetId planId rotationId : String) : Db × Except AppError RotationResult :=
  commitOrRollback tx.current (finalizeRemovalTx mode tx begun now actorId vaultId targetId planId rotationId)

end Bittery
