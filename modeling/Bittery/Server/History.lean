/-
The server as a transition system: one step is one committed transaction.

The state is the history of the database, because a transaction need not have read it as it
is now. A request that checks the pool before its transaction begins has seen an earlier
database, and a SERIALIZABLE transaction works on the database at its first statement; the
label of a step says which (`0` is the present one, `1` the one before, …). Every
interleaving of requests whose statements overlap is a run of this system.

A step is enabled when its transaction commits. A finalization that fails commits nothing,
but marks the plan it found stale. The services that write only users, sessions and teams
(sign-in, billing, team settings) are one step, which may leave any rows there that the
keys and vaults can still refer to.
-/
import Bittery.Lib.Runs
import Bittery.Server.Accounts
import Bittery.Server.Attachments
import Bittery.Server.Rotation.Departure

namespace Bittery

open Lib

/-- What a server is configured with, and the text its database gives a manifest payload. -/
structure Deployment where
  mode : DeploymentMode
  payloadText : ManifestPayload → String

/-- The database and what it was before, latest first. -/
structure History where
  now : Db
  past : List Db

namespace History

def states (h : History) : List Db := h.now :: h.past

/-- The database some transactions ago. -/
def ago (h : History) (n : Nat) : Option Db := h.states[n]?

def commit (h : History) (db : Db) : History := ⟨db, h.states⟩

end History

/-- The transactions of the server. `seen`, `acl` and `listed` are the databases its checks
have read, `snap` is the one its transaction works on, all counted back from the present. -/
inductive Transaction
  | item (userId : String) (request : ItemRequest) (seen acl : Nat)
  | createAttachment (userId : String) (clientId : Option String) (input : CreateAttachmentInput) (seen acl : Nat)
  | updateAttachment (userId : String) (clientId : Option String) (input : UpdateAttachmentInput) (seen acl : Nat)
  | deleteAttachment (userId : String) (clientId : Option String) (attachmentId : String) (seen acl : Nat)
  | createVault (userId generatedId keyId : String) (input : CreateVaultInput) (seen : Nat)
  | updateVault (userId : String) (input : UpdateVaultInput) (seen : Nat)
  | convertVaultType (userId : String) (input : ConvertVaultTypeInput) (seen : Nat)
  | deleteVault (userId : String) (clientId : Option String) (vaultId : String) (seen listed : Nat)
  | updateVaultMemberRole (userId : String) (input : UpdateVaultMemberRoleInput) (seen : Nat)
  | addVaultMember (userId keyId : String) (input : AddVaultMemberInput) (seen : Nat)
  | acceptInvitation (userId : String) (invitation : Invitation) (seen : Nat)
  | registerUser (user : User) (vaultId keyId encryptedVaultKey : String) (invitation : Option Invitation) (seen : Nat)
  | updateVaultKeys (userId : String) (keys : List (String × String))
  | deleteAccount (userId : String)
  | accounts (users : Table User.id) (sessions : Table Session.id) (teams : Table Team.id)
  | cleanupTombstones (cutoff : Time) (seen : Nat)
  | pruneSyncEvents (upTo : Nat)
  | createRemovalPlan (now : Time) (planId actorId vaultId targetId : String) (seen snap : Nat)
  | createDeparturePlan (now : Time) (planId teamId actorId targetId : String) (intent : Intent) (vaultId : String)
      (seen snap : Nat)
  | readPreparationPage (now : Time) (planId userId : String) (kind : ManifestKind) (cursor : Option String) (limit : Nat)
  | stageOutputs (now : Time) (planId userId : String) (kind : ManifestKind) (outputs : List StagedOutput)
  | abandonPlan (now : Time) (planId userId : String)
  | recordStale (planId : String) (reason : StaleReason)
  | cleanupRotationPlans (now : Time) (locked : List String) (limit : Nat)
  | finalizeRemoval (begun now : Time) (actorId vaultId targetId planId rotationId : String) (snap : Nat)
  | finalizeDeparture (begun now : Time) (teamId actorId targetId : String) (intent : Intent)
      (plans : List (String × String)) (personalTeamId : String) (snap : Nat)

namespace Transaction

/-- The id of a new plan is a random UUID: no plan has ever had it. -/
def freshPlanId (h : History) (planId : String) : Bool := h.states.all fun db => (db.plans.get? planId).isNone

/-- The database a transaction leaves, when it commits. -/
def run (d : Deployment) (h : History) : Transaction → Option Db
  | item userId request seen acl => do
    (request.run (← h.ago seen) (← h.ago acl) h.now userId).toOption
  | createAttachment userId clientId input seen acl => do
    (createVaultAttachment d.mode (← h.ago seen) (← h.ago acl) h.now userId clientId input).toOption
  | updateAttachment userId clientId input seen acl => do
    (updateVaultAttachment d.mode (← h.ago seen) (← h.ago acl) h.now userId clientId input).toOption
  | deleteAttachment userId clientId attachmentId seen acl => do
    (deleteVaultAttachment d.mode (← h.ago seen) (← h.ago acl) h.now userId clientId attachmentId).toOption
  | createVault userId generatedId keyId input seen => do
    (Bittery.createVault d.mode (← h.ago seen) h.now userId generatedId keyId input).toOption
  | updateVault userId input seen => do (Bittery.updateVault (← h.ago seen) h.now userId input).toOption
  | convertVaultType userId input seen => do
    (Bittery.convertVaultType d.mode (← h.ago seen) h.now userId input).toOption
  | deleteVault userId clientId vaultId seen listed => do
    (Bittery.deleteVault (← h.ago seen) (← h.ago listed) h.now userId clientId vaultId).toOption
  | updateVaultMemberRole userId input seen => do
    (Bittery.updateVaultMemberRole d.mode (← h.ago seen) h.now userId input).toOption
  | addVaultMember userId keyId input seen => do
    (Bittery.addVaultMember d.mode (← h.ago seen) h.now userId keyId input).toOption
  | acceptInvitation userId invitation seen => do
    (Bittery.acceptInvitation d.mode (← h.ago seen) h.now userId invitation).toOption
  | registerUser user vaultId keyId encryptedVaultKey invitation seen => do
    (Bittery.registerUser (← h.ago seen) h.now user vaultId keyId encryptedVaultKey invitation).toOption
  | updateVaultKeys userId keys => (applyEncryptedVaultKeyUpdates h.now userId keys).toOption
  | deleteAccount userId => (Bittery.deleteAccount h.now userId).toOption
  | accounts users sessions teams =>
    if (h.now.vaultKeys.rows.all fun k => (users.get? k.userId).isSome) &&
        h.now.vaults.rows.all fun v => (users.get? v.createdById).isSome && v.teamId.all fun t => (teams.get? t).isSome then
      some { h.now with users := users, sessions := sessions, teams := teams }
    else none
  | cleanupTombstones cutoff seen => do (Bittery.cleanupTombstones (← h.ago seen) h.now cutoff).toOption
  | pruneSyncEvents upTo => some (Bittery.pruneSyncEvents h.now upTo)
  | createRemovalPlan now planId actorId vaultId targetId seen snap => do
    guard (freshPlanId h planId)
    (Bittery.createRemovalPlan d.mode (← h.ago seen) ⟨← h.ago snap, h.now⟩ now planId actorId vaultId targetId).toOption
  | createDeparturePlan now planId teamId actorId targetId intent vaultId seen snap => do
    guard (freshPlanId h planId)
    (Bittery.createDeparturePlan d.mode (← h.ago seen) ⟨← h.ago snap, h.now⟩ now planId teamId actorId targetId intent
      vaultId).toOption
  | readPreparationPage now planId userId kind cursor limit =>
    ((Bittery.readPreparationPage d.payloadText h.now now planId userId kind cursor limit).map Prod.fst).toOption
  | stageOutputs now planId userId kind outputs =>
    (Bittery.stageOutputs h.now now planId userId kind outputs).toOption
  | abandonPlan now planId userId => (Bittery.abandonPlan h.now now planId userId).toOption
  | recordStale planId reason => some (Bittery.recordStale h.now planId reason)
  | cleanupRotationPlans now locked limit => some (Bittery.cleanupRotationPlans h.now now locked limit)
  | finalizeRemoval begun now actorId vaultId targetId planId rotationId snap => do
    return (Bittery.finalizeRemoval d.mode ⟨← h.ago snap, h.now⟩ begun now actorId vaultId targetId planId rotationId).1
  | finalizeDeparture begun now teamId actorId targetId intent plans personalTeamId snap => do
    return (Bittery.finalizeDeparture d.mode ⟨← h.ago snap, h.now⟩ begun now teamId actorId targetId intent plans
      personalTeamId).1

end Transaction

/-- The server, from the empty database on. -/
def server (d : Deployment) : System History Transaction where
  init h := h = ⟨Db.empty, []⟩
  step h t := (t.run d h).map h.commit

end Bittery
