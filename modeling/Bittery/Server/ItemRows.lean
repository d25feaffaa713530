/-
Which rows of items and attachments a transaction leaves.

Only four kinds of transactions write them: an item request, a new attachment, a renamed
or deleted one, and a finalization. Every other transaction at most deletes rows, and where
it deletes an item it deletes the attachments of the item too. `RowsKept` says so for one
statement and is transitive; `Transaction.itemEffect` says it of a transaction.
-/
import Bittery.Server.HistoryFacts

namespace Bittery

open Lib

variable {db db' : Db}

theorem PlansEvolve.kept (h : PlansEvolve (fun _ _ => True) (fun _ _ => True) db db') : RowsKept db db' := by
  obtain ⟨plans, rfl, -⟩ := h
  exact .of_eq rfl rfl

theorem SameRows.kept (h : SameRows db db') : RowsKept db db' := .of_eq h.items h.attachments

/-! ## One transaction -/

namespace Transaction

/-- The plans a transaction finalizes, as it reads them. -/
def finalized (d : Deployment) (h : History) : Transaction → List RotationPlan
  | finalizeRemoval begun now actorId vaultId targetId planId rotationId snap =>
    (h.ago snap).elim [] fun snapshot =>
      if (Bittery.finalizeRemoval d.mode ⟨snapshot, h.now⟩ begun now actorId vaultId targetId planId rotationId).2.toBool then
        (snapshot.plans.get? planId).toList
      else []
  | finalizeDeparture begun now teamId actorId targetId intent plans personalTeamId snap =>
    (h.ago snap).elim [] fun snapshot =>
      if (Bittery.finalizeDeparture d.mode ⟨snapshot, h.now⟩ begun now teamId actorId targetId intent plans
          personalTeamId).2.toBool then
        plans.filterMap fun x => snapshot.plans.get? x.1
      else []
  | _ => []

end Transaction

/-- What a transaction has done to items and attachments. -/
inductive ItemEffect (d : Deployment) (h : History) : Transaction → Db → Prop
  | kept {t : Transaction} {db' : Db} (hk : RowsKept h.now db') : ItemEffect d h t db'
  | request {userId : String} {request : ItemRequest} {seen acl : Nat} {seenDb aclDb db' : Db}
      (hseen : h.ago seen = some seenDb) (hrun : request.run seenDb aclDb h.now userId = .ok db') :
      ItemEffect d h (.item userId request seen acl) db'
  | attached {userId : String} {clientId : Option String} {input : CreateAttachmentInput} {seen acl : Nat}
      {seenDb aclDb db' : Db} (hseen : h.ago seen = some seenDb)
      (hrun : createVaultAttachment d.mode seenDb aclDb h.now userId clientId input = .ok db') :
      ItemEffect d h (.createAttachment userId clientId input seen acl) db'
  | finalizes {t : Transaction} {ps : List RotationPlan} {es : List SyncEvent} {actorId : String} {snapshot db' : Db}
      {tx' : Versions Db} (hps : ∀ p ∈ ps, p ∈ t.finalized d h)
      (hturn : FinalizedInTurn actorId ps es ⟨snapshot, h.now⟩ tx') (hsame : SameRows tx'.current db') :
      ItemEffect d h t db'

theorem ItemEffect.of_rollback {d : Deployment} {h : History} {t : Transaction} (e : Aborted) :
    ItemEffect d h t (e.rollback h.now).1 := by
  cases e with
  | failed e => exact .kept (.refl _)
  | stale planId reason =>
    exact .kept (PlansEvolve.kept (recordStale_evolves ..))

theorem finalizeRemovalTx_inTurn {mode : DeploymentMode} {tx tx' : Versions Db} {begun now : Time}
    {actorId vaultId targetId planId rotationId : String} {result : RotationResult}
    (h : finalizeRemovalTx mode tx begun now actorId vaultId targetId planId rotationId = .ok (tx', result)) :
    ∃ plan es, tx.snapshot.plans.get? planId = some plan ∧ FinalizedInTurn actorId [plan] es tx tx' := by
  simp only [finalizeRemovalTx, Except.bind_ok_iff, Except.guard_ok_iff] at h
  obtain ⟨policy, -, -, h⟩ := h
  split at h
  · simp only [Except.bind_ok_iff, Except.guard_ok_iff, Except.mapError_ok_iff] at h
    obtain ⟨⟨⟩, -, ⟨⟩, -, -, ⟨⟩, -, ⟨⟩, -, h⟩ := h
    obtain ⟨plan, vault, es, hf, hevents, hrevokes⟩ := finalizeLockedPlan_events h
    exact ⟨plan, es ++ [], hf.locked.foundPlan, .cons hf hevents hrevokes (by simp) (by simp) (.nil _)⟩
  · cases h

/-- **What each transaction does to items and attachments.** -/
theorem Transaction.itemEffect {d : Deployment} {h : History} {t : Transaction} {db' : Db}
    (hrun : t.run d h = some db') : ItemEffect d h t db' := by
  cases t with
  | item userId request seen acl =>
    obtain ⟨_, hseen, _, -, hrun⟩ := History.ran₂ hrun
    exact .request hseen hrun
  | createAttachment userId clientId input seen acl =>
    obtain ⟨_, hseen, _, -, hrun⟩ := History.ran₂ hrun
    exact .attached hseen hrun
  | updateAttachment userId clientId input seen acl =>
    obtain ⟨_, -, _, -, hrun⟩ := History.ran₂ hrun
    exact .kept (updateVaultAttachment_kept hrun).rows
  | deleteAttachment userId clientId attachmentId seen acl =>
    obtain ⟨_, -, _, -, hrun⟩ := History.ran₂ hrun
    exact .kept (deleteVaultAttachment_kept hrun).rows
  | createVault userId generatedId keyId input seen =>
    obtain ⟨_, -, hrun⟩ := History.ran hrun
    obtain ⟨db₁, hf, hk⟩ := createVault_founded hrun
    exact .kept (hf.rows.trans hk.rows)
  | updateVault userId input seen =>
    obtain ⟨_, -, hrun⟩ := History.ran hrun
    exact .kept (updateVault_kept hrun).rows
  | convertVaultType userId input seen =>
    obtain ⟨_, -, hrun⟩ := History.ran hrun
    exact .kept (convertVaultType_kept hrun).rows
  | deleteVault userId clientId vaultId seen listed =>
    obtain ⟨_, -, _, -, hrun⟩ := History.ran₂ hrun
    exact .kept (deleteVault_kept hrun).rows
  | updateVaultMemberRole userId input seen =>
    obtain ⟨_, -, hrun⟩ := History.ran hrun
    exact .kept (updateVaultMemberRole_kept hrun).rows
  | addVaultMember userId keyId input seen =>
    obtain ⟨_, -, hrun⟩ := History.ran hrun
    exact .kept (addVaultMember_kept hrun).rows
  | acceptInvitation userId invitation seen =>
    obtain ⟨_, -, hrun⟩ := History.ran hrun
    exact .kept (acceptInvitation_kept hrun).rows
  | registerUser user vaultId keyId encryptedVaultKey invitation seen =>
    obtain ⟨_, -, hrun⟩ := History.ran hrun
    obtain ⟨db₁, hf, hk⟩ := registerUser_founded hrun
    exact .kept (hf.rows.trans hk.rows)
  | updateVaultKeys userId keys =>
    exact .kept (applyEncryptedVaultKeyUpdates_kept (Except.toOption_eq_some_iff.mp hrun)).rows
  | deleteAccount userId => exact .kept (deleteAccount_kept (Except.toOption_eq_some_iff.mp hrun)).rows
  | accounts users sessions teams =>
    simp only [run] at hrun
    split at hrun
    · cases hrun
      exact .kept (.of_eq rfl rfl)
    · cases hrun
  | cleanupTombstones cutoff seen =>
    obtain ⟨_, -, hrun⟩ := History.ran hrun
    exact .kept (cleanupTombstones_kept hrun).rows
  | pruneSyncEvents upTo =>
    cases hrun
    exact .kept (.of_eq rfl rfl)
  | createRemovalPlan now planId actorId vaultId targetId seen snap =>
    simp only [run, Option.bind_eq_bind, Option.bind_eq_some_iff, Except.toOption_eq_some_iff, Option.guard_eq_some',
      exists_const] at hrun
    obtain ⟨-, _, -, snapshot, -, hrun⟩ := hrun
    exact .kept (PlansEvolve.kept (createRemovalPlan_evolves trivial hrun))
  | createDeparturePlan now planId teamId actorId targetId intent vaultId seen snap =>
    simp only [run, Option.bind_eq_bind, Option.bind_eq_some_iff, Except.toOption_eq_some_iff, Option.guard_eq_some',
      exists_const] at hrun
    obtain ⟨-, _, -, snapshot, -, hrun⟩ := hrun
    exact .kept (PlansEvolve.kept (createDeparturePlan_evolves trivial hrun))
  | readPreparationPage now planId userId kind cursor limit =>
    obtain ⟨⟨_, page⟩, hpage, rfl⟩ := Except.map_ok_iff.mp (Except.toOption_eq_some_iff.mp hrun)
    exact .kept (PlansEvolve.kept (readPreparationPage_evolves hpage))
  | stageOutputs now planId userId kind outputs =>
    exact .kept (PlansEvolve.kept (stageOutputs_evolves (fun _ _ _ _ => trivial) (Except.toOption_eq_some_iff.mp hrun)))
  | abandonPlan now planId userId =>
    exact .kept (PlansEvolve.kept (abandonPlan_evolves (Except.toOption_eq_some_iff.mp hrun)))
  | recordStale planId reason =>
    cases hrun
    exact .kept (PlansEvolve.kept (recordStale_evolves ..))
  | cleanupRotationPlans now locked limit =>
    cases hrun
    exact .kept (PlansEvolve.kept (cleanupRotationPlans_evolves ..))
  | finalizeRemoval begun now actorId vaultId targetId planId rotationId snap =>
    simp only [run, Option.bind_eq_bind, Option.bind_eq_some_iff, Option.pure_def, Option.some.injEq] at hrun
    obtain ⟨snapshot, hsnap, rfl⟩ := hrun
    cases hok : finalizeRemovalTx d.mode ⟨snapshot, h.now⟩ begun now actorId vaultId targetId planId rotationId with
    | ok r =>
      obtain ⟨tx', result⟩ := r
      obtain ⟨plan, es, hplan, hturn⟩ := finalizeRemovalTx_inTurn hok
      simp only [Bittery.finalizeRemoval, commitOrRollback, hok]
      refine .finalizes (fun p hp => ?_) hturn (.refl _)
      obtain rfl : p = plan := List.mem_singleton.mp hp
      have hplan : snapshot.plans.get? planId = some p := hplan
      simp [finalized, hsnap, Bittery.finalizeRemoval, commitOrRollback, hok, hplan, Except.toBool]
    | error e =>
      simp only [Bittery.finalizeRemoval, commitOrRollback, hok]
      exact .of_rollback _
  | finalizeDeparture begun now teamId actorId targetId intent plans personalTeamId snap =>
    simp only [run, Option.bind_eq_bind, Option.bind_eq_some_iff, Option.pure_def, Option.some.injEq] at hrun
    obtain ⟨snapshot, hsnap, rfl⟩ := hrun
    cases hok : finalizeDepartureTx d.mode ⟨snapshot, h.now⟩ begun now teamId actorId targetId intent plans
        personalTeamId with
    | ok r =>
      obtain ⟨tx', result⟩ := r
      obtain ⟨target, team, ps, es, tx₁, -, -, -, hfor, hturn, hmove⟩ := finalizeDepartureTx_ok hok
      simp only [Bittery.finalizeDeparture, commitOrRollback, hok]
      refine .finalizes (fun p hp => ?_) hturn (moveToPersonalTeam_sameRows hmove)
      obtain ⟨id, hid, hget⟩ := forall₂_exists_of_mem_right hfor.found hp
      obtain ⟨x, hx, rfl⟩ := List.mem_map.mp hid
      have hget : snapshot.plans.get? x.1 = some p := hget
      simp only [finalized, hsnap, Option.elim_some, Bittery.finalizeDeparture, commitOrRollback, hok, Except.toBool,
        if_true, List.mem_filterMap]
      exact ⟨x, hx, hget⟩
    | error e =>
      simp only [Bittery.finalizeDeparture, commitOrRollback, hok]
      exact .of_rollback _

end Bittery
