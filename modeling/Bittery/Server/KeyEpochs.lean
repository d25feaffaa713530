/-
Under which version of its vault's key each member's wrapped key is.

A client wraps the vault key it holds when it prepares a request, and the server stores what
it is given whenever the request arrives. `epoch` tells of each wrapped key the vault and the
key version it opens to; it is a parameter, and only what the clients of a run submit decides
what it is there. No request that stores a wrapped key names a key version, so whether the
vault was rotated in between is not noticed.
-/
import Bittery.Server.Access
import Bittery.Server.Epochs

namespace Bittery

open Lib

variable (epoch : String → String × Nat)

/-! ## Current keys -/

/-- **Every member holds the current vault key.** -/
def KeysCurrent (db : Db) : Prop := ∀ k ∈ db.vaultKeys, SealedNow epoch db k.vaultId k.encryptedVaultKey

/-- A staged key of a member is the key version the plan leads to. -/
def WrapsNext (p : RotationPlan) (s : StagedRecord) : Prop :=
  s.kind = .member → epoch (s.get "encryptedVaultKey") = (p.vaultId, p.expectedKeyVersion + 1)

/-- Every key of a vault is one that the finalization sees. -/
def SeesKeys (tx : Versions Db) (vaultId : String) : Prop :=
  ∀ k ∈ tx.current.vaultKeys, k.vaultId = vaultId → k ∈ tx.snapshot.vaultKeys

/-! ## What clients may submit -/

/-- Staged keys are of the next version, and finalizations see the keys they replace. -/
def wrapTerms : Terms :=
  { Terms.none with output := WrapsNext epoch, rotation := fun tx p => SeesKeys tx p.vaultId }

/-- A wrapped key is of the version its vault has when the key is stored. -/
def Transaction.WrapsCurrent (h : History) : Transaction → Prop
  | createVault _ generatedId _ input _ => epoch input.encryptedVaultKey = (input.vaultId.getD generatedId, 1)
  | convertVaultType _ input _ => ∀ key, input.personalEncryptedVaultKey = some key →
      SealedNow epoch h.now input.vaultId key
  | addVaultMember _ _ input _ => SealedNow epoch h.now input.vaultId input.encryptedVaultKey
  | acceptInvitation userId invitation _ => ∀ k ∈ invitation.pendingVaultKeys, h.now.holdsKey userId k.vaultId = false →
      SealedNow epoch h.now k.vaultId k.encryptedVaultKey
  | registerUser _ vaultId _ key invitation _ => epoch key = (vaultId, 1) ∧ ∀ i, invitation = some i →
      ∀ k ∈ i.pendingVaultKeys, k.vaultId ≠ vaultId ∧ SealedNow epoch h.now k.vaultId k.encryptedVaultKey
  | updateVaultKeys userId keys => ∀ x ∈ keys, h.now.holdsKey userId x.1 = true → SealedNow epoch h.now x.1 x.2
  | t => t.Meets (wrapTerms epoch) h

/-- A wrapped key is of a version that the vault has had by then: the client has held it. -/
def HeldKey (h : History) (vaultId key : String) : Prop :=
  ∃ db ∈ h.states, ∃ v, db.vaults.get? vaultId = some v ∧ epoch key = (vaultId, v.keyVersion)

/-- Clients wrap the key they held when they prepared the request. -/
def Transaction.WrapsHeld (h : History) : Transaction → Prop
  | createVault _ generatedId _ input _ => epoch input.encryptedVaultKey = (input.vaultId.getD generatedId, 1)
  | convertVaultType _ input _ => ∀ key, input.personalEncryptedVaultKey = some key → HeldKey epoch h input.vaultId key
  | addVaultMember _ _ input _ => HeldKey epoch h input.vaultId input.encryptedVaultKey
  | acceptInvitation _ invitation _ => ∀ k ∈ invitation.pendingVaultKeys, HeldKey epoch h k.vaultId k.encryptedVaultKey
  | registerUser _ vaultId _ key invitation _ => epoch key = (vaultId, 1) ∧ ∀ i, invitation = some i →
      ∀ k ∈ i.pendingVaultKeys, HeldKey epoch h k.vaultId k.encryptedVaultKey
  | updateVaultKeys _ keys => ∀ x ∈ keys, HeldKey epoch h x.1 x.2
  | t => t.Meets { Terms.none with output := WrapsNext epoch } h

/-! ## One step -/

section Step

variable {epoch} {h : History} {db db' seen : Db}

/-- What was current stays current where no vault changes its key version. -/
theorem SealedNow.of_vaults {vaultId c : String} (hs : SealedNow epoch db vaultId c)
    (hv : ∀ v' ∈ db'.vaults, ∃ v ∈ db.vaults, v.id = v'.id ∧ v.keyVersion = v'.keyVersion) :
    SealedNow epoch db' vaultId c := by
  refine hs.congr fun v' hget => ?_
  obtain ⟨hmem, rfl⟩ := Table.get?_eq_some.mp hget
  obtain ⟨v, hv, hid, hkv⟩ := hv v' hmem
  exact ⟨v, hid ▸ Table.get?_key hv, hkv⟩

/-- A new vault is none of those that have keys. -/
theorem SealedNow.of_insert {v : Vault} {vaultId c : String} (hs : SealedNow epoch db vaultId c)
    (hins : db.vaults.insert v = some db'.vaults) (hne : vaultId ≠ v.id) : SealedNow epoch db' vaultId c := by
  intro v' hget
  rw [Table.get?_insert hins, if_neg hne] at hget
  exact hs v' hget

theorem sealedNow_inserted {v : Vault} {c : String} (hins : db.vaults.insert v = some db'.vaults)
    (hc : epoch c = (v.id, v.keyVersion)) : SealedNow epoch db' v.id c := by
  intro v' hget
  rw [Table.get?_insert hins, if_pos rfl, Option.some.injEq] at hget
  rw [← hget, hc]

/-- A key is of a vault that is there, so not of a new one. -/
theorem ne_of_inserted {v : Vault} (hr : db.Referential) (hins : db.vaults.insert v = some db'.vaults) {k : VaultKey}
    (hk : k ∈ db.vaultKeys) : k.vaultId ≠ v.id := by
  obtain ⟨w, hw, hid⟩ := Db.hasVault_iff.mp (hr.keys k hk)
  exact hid ▸ Table.insert_fresh hins w hw

theorem SameAccess.keysCurrent (hs : SameAccess db db') (hI : KeysCurrent epoch db) : KeysCurrent epoch db' := by
  intro k hk
  refine (hI k (hs.keys ▸ hk)).of_vaults fun v' hv' => ?_
  obtain ⟨v, hv, ha⟩ := hs.vaults v' hv'
  exact ⟨v, hv, ha.id.symm, ha.keyVersion.symm⟩

theorem CreatesVault.keysCurrent {v : Vault} {k : VaultKey} (hc : CreatesVault v k db db') (hr : db.Referential)
    (hv : k.vaultId = v.id) (hk : epoch k.encryptedVaultKey = (v.id, v.keyVersion)) (hI : KeysCurrent epoch db) :
    KeysCurrent epoch db' := by
  intro k' hk'
  rcases (Table.mem_insert hc.key k').mp hk' with hold | rfl
  · exact (hI k' hold).of_insert hc.vault (ne_of_inserted hr hc.vault hold)
  · rw [hv]
    exact sealedNow_inserted hc.vault hk

theorem AddsKeys.keysCurrent {given : VaultKey → Prop} (ha : AddsKeys given db.vaultKeys db'.vaultKeys)
    (hvaults : db'.vaults = db.vaults) (hgiven : ∀ k, given k → SealedNow epoch db k.vaultId k.encryptedVaultKey)
    (hI : KeysCurrent epoch db) : KeysCurrent epoch db' := by
  intro k' hk'
  refine SealedNow.of_vaults ?_ fun v' hv' => ⟨v', hvaults ▸ hv', rfl, rfl⟩
  exact (ha.only k' hk').elim (hI k') (hgiven k')

/-- Submitted keys take the place of those there were. -/
theorem submitted_keysCurrent {userId : String} {keys : List (String × String)}
    (hk : Table.Maps (VaultKey.submitted userId keys) db.vaultKeys db'.vaultKeys)
    (hv : ∀ v' ∈ db'.vaults, ∃ v ∈ db.vaults, v.id = v'.id ∧ v.keyVersion = v'.keyVersion)
    (hgiven : ∀ x ∈ keys, db.holdsKey userId x.1 = true → SealedNow epoch db x.1 x.2) (hI : KeysCurrent epoch db) :
    KeysCurrent epoch db' := by
  intro k' hk'
  obtain ⟨k, hmem, rfl⟩ := (hk k').mp hk'
  refine SealedNow.of_vaults ?_ hv
  rw [(submitted_ids userId keys k).2.1]
  rcases submitted_text userId keys k with ⟨htext, -⟩ | ⟨hu, x, hx, hxv, htext⟩
  · rw [htext]
    exact hI k hmem
  · rw [htext, ← hxv]
    exact hgiven x hx (Db.holdsKey_iff.mpr ⟨k, hmem, hxv.symm, hu⟩)

/-- **Finalizations keep keys current**: the remaining keys of a rotated vault are replaced by
staged keys of its next version. -/
theorem FinalizedInTurn.keysCurrent {actorId : String} {ps : List RotationPlan} {es : List SyncEvent}
    {tx tx' : Versions Db} (hturn : FinalizedInTurn actorId ps es tx tx') (hu : tx.snapshot.KeysHaveUsers)
    (hsees : ∀ p ∈ ps, SeesKeys tx p.vaultId) (hout : ∀ p ∈ tx.current.plans, ∀ s ∈ p.staged, WrapsNext epoch p s)
    (hI : KeysCurrent epoch tx.current) : KeysCurrent epoch tx'.current := by
  intro k' hk' v' hv'
  by_cases hin : k'.vaultId ∈ ps.map (·.vaultId)
  · obtain ⟨p, hp, hpv⟩ := List.mem_map.mp hin
    obtain ⟨v, -, hver, hafter⟩ := (hturn.all.rewritten p hp).vault
    obtain rfl : { v with keyVersion := v.keyVersion + 1 } = v' := Option.some.inj (hafter.symm.trans (hpv ▸ hv'))
    obtain ⟨k, hk, hnot, rfl⟩ := (hturn.rotatesKeys p hp k' hpv.symm).mp hk'
    have hkv : k.vaultId = p.vaultId := by rw [hpv, ite_rewrap_vaultId.1]
    have hseen := hsees p hp k hk hkv
    have hstays : some k.userId ≠ p.excludedUserId := fun he =>
      hnot ⟨by simp [RotationPlan.excludes, hkv, he], hseen⟩
    obtain ⟨s, hs⟩ := hturn.covered p hp k hseen hkv hstays (hu k hseen)
    obtain ⟨hmem, hkey⟩ := Table.get?_eq_some.mp hs
    have hnext := hout p (Table.mem_of_get? (hturn.all.completed p hp).2.1) s hmem (congrArg Prod.fst hkey)
    have hrewraps : p.rewrapsKey k = true := by simp [RotationPlan.rewrapsKey, hkv, hs]
    rw [if_pos ⟨hrewraps, hseen⟩, VaultKey.rewrap_eq hs]
    show epoch (s.get "encryptedVaultKey") = (k.vaultId, v.keyVersion + 1)
    rw [hnext, hkv, hver]
  · have hsame := hturn.all.others k'.vaultId hin
    exact hI k' ((hsame.keys k' rfl).mp hk') v' (hsame.vault ▸ hv')

theorem Transaction.WrapsCurrent.meets {t : Transaction} (ht : t.WrapsCurrent epoch h) : t.Meets (wrapTerms epoch) h := by
  cases t with
  | createVault | convertVaultType | addVaultMember | acceptInvitation | registerUser | updateVaultKeys => exact trivial
  | _ => exact ht

theorem Converts.keysCurrent {userId : String} {input : ConvertVaultTypeInput}
    (hc : Converts seen userId input db db')
    (hgiven : ∀ key, input.personalEncryptedVaultKey = some key → SealedNow epoch db input.vaultId key)
    (hI : KeysCurrent epoch db) : KeysCurrent epoch db' := by
  have hconverted : ∀ {type teamId}, Table.Maps (Vault.converted input.vaultId type teamId) db.vaults db'.vaults →
      ∀ v' ∈ db'.vaults, ∃ v ∈ db.vaults, v.id = v'.id ∧ v.keyVersion = v'.keyVersion := by
    intro type teamId hmaps v' hv'
    obtain ⟨v, hv, rfl⟩ := (hmaps v').mp hv'
    refine ⟨v, hv, ?_⟩
    unfold Vault.converted
    split <;> exact ⟨rfl, rfl⟩
  cases hc with
  | toTeam htype teamId hteam husers hkeys hvaults =>
    exact fun k hk => (hI k (hkeys ▸ hk)).of_vaults (hconverted hvaults)
  | toPersonal htype k honly howner husers hkeys hvaults =>
    refine submitted_keysCurrent hkeys (hconverted hvaults) (fun x hx _ => ?_) hI
    obtain ⟨key, hkey, rfl⟩ := List.mem_map.mp hx
    exact hgiven key (Option.mem_toList.mp hkey)

theorem moveToPersonalTeam_keysCurrent {tx tx' : Versions Db} {target : User} {personalTeamId : String}
    (h : moveToPersonalTeam tx target personalTeamId = some tx') (hI : KeysCurrent epoch tx.current) :
    KeysCurrent epoch tx'.current := by
  have hrows := moveToPersonalTeam_sameRows h
  intro k hk
  exact (hI k (hrows.keys ▸ hk)).of_vaults fun v hv => ⟨v, hrows.vaults ▸ hv, rfl, rfl⟩

/-- **One transaction keeps keys current.** -/
theorem Transaction.Access.keysCurrent {t : Transaction} (ha : t.Access h db') (ht : t.WrapsCurrent epoch h)
    (hr : ∀ db ∈ h.states, db.Referential) (hout : ∀ p ∈ h.now.plans, ∀ s ∈ p.staged, WrapsNext epoch p s)
    (hI : KeysCurrent epoch h.now) : KeysCurrent epoch db' := by
  have hnow : h.now.Referential := hr h.now (by simp [History.states])
  cases t with
  | createVault userId generatedId keyId input seen =>
    obtain ⟨seen, v, -, hid, -, hfounded, hc⟩ := ha
    refine hc.keysCurrent hnow rfl ?_ hI
    rw [hid, hfounded.keyVersion]
    exact ht
  | convertVaultType userId input seen =>
    obtain ⟨seen, -, hc⟩ := ha
    exact hc.keysCurrent ht hI
  | deleteVault userId clientId vaultId seen listed =>
    exact fun k hk => (hI k ((ha.keys k).mp hk).1).of_vaults fun v hv => ⟨v, ((ha.vaults v).mp hv).1, rfl, rfl⟩
  | updateVaultMemberRole userId input seen =>
    obtain ⟨-, -, hvaults, hkeys⟩ := ha
    intro k' hk'
    obtain ⟨k, hk, rfl⟩ := (hkeys k').mp hk'
    have hsame : (VaultKey.withRole input.vaultId input.userId input.role k).vaultId = k.vaultId ∧
        (VaultKey.withRole input.vaultId input.userId input.role k).encryptedVaultKey = k.encryptedVaultKey := by
      unfold VaultKey.withRole
      split <;> exact ⟨rfl, rfl⟩
    rw [hsame.1, hsame.2]
    exact (hI k hk).of_vaults fun v hv => ⟨v, hvaults ▸ hv, rfl, rfl⟩
  | addVaultMember userId keyId input seen =>
    obtain ⟨-, -, hvaults, hins⟩ := ha
    refine (AddsKeys.insert hins).keysCurrent hvaults ?_ hI
    rintro k rfl
    exact ht
  | acceptInvitation userId invitation seen =>
    obtain ⟨-, hvaults, hadds⟩ := ha
    refine hadds.keysCurrent hvaults ?_ hI
    rintro k ⟨hnot, a, hmem, rfl⟩
    exact ht a hmem hnot
  | registerUser user vaultId keyId encryptedVaultKey invitation seen =>
    obtain ⟨v, keys, hid, -, -, hver, -, hvault, hkey, hadds⟩ := ha
    intro k' hk'
    rcases hadds.only k' hk' with hold | ⟨i, hi, a, hmem, rfl⟩
    · rcases (Table.mem_insert hkey k').mp hold with hold | rfl
      · exact (hI k' hold).of_insert hvault (ne_of_inserted hnow hvault hold)
      · have hnew : SealedNow epoch db' v.id encryptedVaultKey := sealedNow_inserted hvault (by rw [hid, hver]; exact ht.1)
        exact hid ▸ hnew
    · obtain ⟨hne, hsealed⟩ := ht.2 i hi a hmem
      exact hsealed.of_insert hvault (hid ▸ hne)
  | updateVaultKeys userId keys =>
    obtain ⟨-, hvaults, hkeys⟩ := ha
    exact submitted_keysCurrent hkeys (fun v hv => ⟨v, hvaults ▸ hv, rfl, rfl⟩) ht hI
  | deleteAccount userId =>
    exact fun k hk => (hI k ((ha.keys k).mp hk).1).of_vaults fun v hv => ⟨v, ((ha.vaults v).mp hv).1, rfl, rfl⟩
  | accounts users sessions teams =>
    obtain ⟨-, hkeys, hvaults⟩ := ha
    exact fun k hk => (hI k (hkeys ▸ hk)).of_vaults fun v hv => ⟨v, hvaults ▸ hv, rfl, rfl⟩
  | finalizeRemoval begun now actorId vaultId targetId planId rotationId snap =>
    obtain ⟨snapshot, hsnap, hsame | ⟨plan, es, tx', hplan, -, -, hturn, rfl⟩⟩ := ha
    · exact hsame.keysCurrent hI
    · refine hturn.keysCurrent (hr snapshot (History.mem_states hsnap)).users (fun p hp => ?_) hout hI
      obtain rfl : p = plan := List.mem_singleton.mp hp
      exact ht snapshot p hsnap hplan
  | finalizeDeparture begun now teamId actorId targetId intent plans personalTeamId snap =>
    obtain ⟨snapshot, hsnap, hsame | ⟨target, ps, es, tx₁, tx', -, -, hps, hturn, hmove, rfl⟩⟩ := ha
    · exact hsame.keysCurrent hI
    · refine moveToPersonalTeam_keysCurrent hmove
        (hturn.keysCurrent (hr snapshot (History.mem_states hsnap)).users (fun p hp => ?_) hout hI)
      obtain ⟨id, hid, hget⟩ := forall₂_exists_of_mem_right hps.found hp
      obtain ⟨x, hx, rfl⟩ := List.mem_map.mp hid
      exact ht snapshot p hsnap x hx hget
  | _ => exact SameAccess.keysCurrent ha hI

end Step

/-! ## Whole runs -/

/-- **Every member holds the current vault key** in every state of a run in which each wrapped
key is of the version its vault has when the key is stored, staged keys are of the next
version, and finalizations see every key of the vault. -/
theorem keys_current (d : Deployment) (h : History)
    (hh : (server d).ReachableUnder (fun h t => t.WrapsCurrent epoch h) h) : ∀ db ∈ h.states, KeysCurrent epoch db := by
  have hI := System.ReachableUnder.invariant
    (fun h => (∀ db ∈ h.states, KeysCurrent epoch db) ∧ ∀ p ∈ h.now.plans, ∀ s ∈ p.staged, WrapsNext epoch p s)
    ?_ ?_ hh
  · exact hI.1
  · rintro _ rfl
    refine ⟨fun db hdb => ?_, fun p hp => absurd hp (Table.not_mem_empty p)⟩
    obtain rfl : db = Db.empty := by simpa [History.states] using hdb
    exact fun k hk => absurd hk (Table.not_mem_empty k)
  · intro h t h' hreach hI hwraps hstep
    obtain ⟨db', hrun, rfl⟩ := Option.map_eq_some_iff.mp hstep
    have hr := referential_of_reachable hreach.reachable
    have hnow : h.now ∈ h.states := by simp [History.states]
    have heff := Transaction.effect (hr _ hnow) hwraps.meets hrun
    refine ⟨fun db hdb => ?_, heff.staged (fun p p' s hv hk hs hkind => ?_) hI.2⟩
    · rcases List.mem_cons.mp hdb with rfl | hdb
      · exact (Transaction.access hrun).keysCurrent hwraps hr hI.2 (hI.1 _ hnow)
      · exact hI.1 db hdb
    · rw [hv, hk]
      exact hs hkind

/-! ## An invitation accepted after a rotation -/

instance (db : Db) (vaultId c : String) : Decidable (SealedNow epoch db vaultId c) :=
  decidable_of_iff ((db.vaults.get? vaultId).all fun v => epoch c = (vaultId, v.keyVersion)) (by
    simp [SealedNow, Option.all_eq_true])

instance (h : History) (vaultId key : String) : Decidable (HeldKey epoch h vaultId key) :=
  decidable_of_iff (h.states.any fun db => (db.vaults.get? vaultId).any fun v => epoch key = (vaultId, v.keyVersion)) (by
    simp [HeldKey, Option.any_eq_true])

/-- What is asked of the requests of the run below; `given` is asked of the keys for members. -/
def Transaction.wrapsCheck (given : History → String → String → Bool) (h : History) : Transaction → Bool
  | accounts .. | createRemovalPlan .. => true
  | createVault _ generatedId _ input _ => epoch input.encryptedVaultKey = (input.vaultId.getD generatedId, 1)
  | addVaultMember _ _ input _ => given h input.vaultId input.encryptedVaultKey
  | acceptInvitation _ invitation _ => invitation.pendingVaultKeys.all fun k => given h k.vaultId k.encryptedVaultKey
  | stageOutputs _ planId _ _ outputs => (h.now.plans.get? planId).all fun p => outputs.all fun o =>
      epoch ((o.payload.field "encryptedVaultKey").getD "") = (p.vaultId, p.expectedKeyVersion + 1)
  | finalizeRemoval _ _ _ _ _ _ _ snap => snap = 0
  | _ => false

variable {epoch} in
theorem wrapsNext_of_check {h : History} {planId : String} {kind : ManifestKind} {outputs : List StagedOutput}
    (hcheck : ((h.now.plans.get? planId).all fun p => outputs.all fun o =>
      epoch ((o.payload.field "encryptedVaultKey").getD "") = (p.vaultId, p.expectedKeyVersion + 1)) = true) :
    ∀ p, h.now.plans.get? planId = some p → ∀ s : StagedRecord, s.GivenBy kind outputs → WrapsNext epoch p s := by
  intro p hp s ⟨_, o, ho, _, hpayload⟩ _
  rw [hp, Option.all_some, List.all_eq_true] at hcheck
  rw [StagedRecord.get, hpayload]
  exact of_decide_eq_true (hcheck o ho)

variable {epoch} in
theorem wrapsCurrent_of_check {h : History} {t : Transaction}
    (hcheck : t.wrapsCheck epoch (fun h v c => decide (SealedNow epoch h.now v c)) h = true) : t.WrapsCurrent epoch h := by
  cases t with
  | accounts | createRemovalPlan => exact trivial
  | createVault | addVaultMember =>
    simp only [Transaction.wrapsCheck, decide_eq_true_eq] at hcheck
    exact hcheck
  | acceptInvitation => exact fun k hk _ => of_decide_eq_true (List.all_eq_true.mp hcheck k hk)
  | stageOutputs => exact wrapsNext_of_check hcheck
  | finalizeRemoval begun now actorId vaultId targetId planId rotationId snap =>
    intro snapshot p hsnap _ k hk _
    obtain rfl : snap = 0 := of_decide_eq_true hcheck
    cases hsnap
    exact hk
  | _ => cases hcheck

variable {epoch} in
theorem wrapsHeld_of_check {h : History} {t : Transaction}
    (hcheck : t.wrapsCheck epoch (fun h v c => decide (HeldKey epoch h v c)) h = true) : t.WrapsHeld epoch h := by
  cases t with
  | accounts | createRemovalPlan => exact trivial
  | createVault | addVaultMember =>
    simp only [Transaction.wrapsCheck, decide_eq_true_eq] at hcheck
    exact hcheck
  | acceptInvitation => exact fun k hk => of_decide_eq_true (List.all_eq_true.mp hcheck k hk)
  | stageOutputs => exact wrapsNext_of_check hcheck
  | finalizeRemoval => exact fun _ _ _ _ => trivial
  | _ => cases hcheck

/-- Carol accepts an invitation after the rotation that removed Bob. -/
def acceptedAfterRotation (key : String) : List Transaction :=
  .accounts ⟨⟨"carol", "Carol", "pk-carol", none, .member⟩ :: annAndBob.rows, by decide⟩ .empty theirTeam ::
    sharedVault.tail ++ preparedRemoval ++
    [.finalizeRemoval 0 0 "ann" "v" "bob" "plan" "rotation" 0,
     .acceptInvitation "carol" ⟨"team", .member, "ann", [⟨"k-carol", "v", key⟩]⟩ 0]

def wrapsOf (key : String) : String × Nat := if key = "key-2" ∨ key = "key-carol-2" then ("v", 2) else ("v", 1)

/-- The invitation carries the key the vault was rotated to. -/
theorem keys_current_after_rotation : ∃ h, (server selfHosted).run ⟨Db.empty, []⟩ (acceptedAfterRotation "key-carol-2") =
    some h ∧ h.now.holdsKey "carol" "v" = true ∧ ∀ db ∈ h.states, KeysCurrent wrapsOf db := by
  let C := fun h (t : Transaction) => t.wrapsCheck wrapsOf (fun h v c => decide (SealedNow wrapsOf h.now v c)) h = true
  have hrun : ((server selfHosted).runUnder C ⟨Db.empty, []⟩ (acceptedAfterRotation "key-carol-2")).any
      (fun h => h.now.holdsKey "carol" "v") = true := by decide +kernel
  rw [Option.any_eq_true] at hrun
  obtain ⟨h, hrun, hholds⟩ := hrun
  have hreach : (server selfHosted).ReachableUnder C h := System.ReachableUnder.runUnder (.init rfl) hrun
  exact ⟨h, System.run_of_runUnder hrun, hholds,
    keys_current wrapsOf selfHosted h (hreach.mono fun _ _ => wrapsCurrent_of_check)⟩

/-- Not every run keeps keys current: the invitation carries a key of version 1, which Ann held
when she invited Carol, and it is stored after the rotation to version 2. -/
theorem retired_key_is_stored : ¬ ∀ (epoch : String → String × Nat) (d : Deployment) (h : History),
    (server d).ReachableUnder (fun h t => t.WrapsHeld epoch h) h → KeysCurrent epoch h.now := by
  intro hall
  let C := fun h (t : Transaction) => t.wrapsCheck wrapsOf (fun h v c => decide (HeldKey wrapsOf h v c)) h = true
  have hrun : ((server selfHosted).runUnder C ⟨Db.empty, []⟩ (acceptedAfterRotation "key-carol-1")).any
      (fun h => versionOfV h.now = some 2 && h.now.vaultKeys.any fun k =>
        k.vaultId = "v" && k.encryptedVaultKey = "key-carol-1") = true := by decide +kernel
  rw [Option.any_eq_true] at hrun
  obtain ⟨h, hrun, hcheck⟩ := hrun
  have hreach : (server selfHosted).ReachableUnder C h := System.ReachableUnder.runUnder (.init rfl) hrun
  simp only [Bool.and_eq_true, decide_eq_true_eq, Table.any_eq_true, versionOfV, Option.map_eq_some_iff] at hcheck
  obtain ⟨⟨v, hv, hversion⟩, k, hk, hkv, hkey⟩ := hcheck
  have hsealed := hall wrapsOf selfHosted h (hreach.mono fun _ _ => wrapsHeld_of_check) k hk v (hkv ▸ hv)
  rw [hkey, hkv, hversion] at hsealed
  revert hsealed
  decide

end Bittery
