/-
Under which version of its vault's key each stored ciphertext is sealed.

The server cannot read ciphertexts. `epoch` tells of each the vault and the key version it
was sealed under; it is a parameter, and only what the clients of a run submit decides what
it is there. Nothing in a request names a key version: an edit is protected from a rotation
by the version of the item it replaces, which the rotation counts up, and a new ciphertext
(a created, imported or moved item, the key of a new attachment) is not protected at all.
-/
import Bittery.Server.Rotation.PlanSafety

namespace Bittery

open Lib

variable (epoch : String → String × Nat)

/-! ## Current ciphertexts -/

/-- Sealed under the current key version of the vault. -/
def SealedNow (db : Db) (vaultId ciphertext : String) : Prop :=
  ∀ v, db.vaults.get? vaultId = some v → epoch ciphertext = (vaultId, v.keyVersion)

/-- **Every stored ciphertext is current.** -/
structure EpochsCurrent (db : Db) : Prop where
  items : ∀ i ∈ db.items, SealedNow epoch db i.vaultId i.encryptedData
  attachments : ∀ a ∈ db.attachments, SealedNow epoch db a.vaultId a.encryptedAttachmentKey

/-- A staged output is sealed under the key version the plan leads to. -/
def SealedNext (p : RotationPlan) (s : StagedRecord) : Prop :=
  match s.kind with
  | .member => True
  | .item => epoch (s.get "encryptedData") = (p.vaultId, p.expectedKeyVersion + 1)
  | .attachment => epoch (s.get "encryptedAttachmentKey") = (p.vaultId, p.expectedKeyVersion + 1)

/-- Everything staged is. -/
def OutputsSealed (db : Db) : Prop := ∀ p ∈ db.plans, ∀ s ∈ p.staged, SealedNext epoch p s

/-- A finalization sees every ciphertext of its vault. -/
structure SeesCiphertexts (tx : Versions Db) (vaultId : String) : Prop where
  items : ∀ i ∈ tx.current.items, i.vaultId = vaultId → i ∈ tx.snapshot.items
  attachments : ∀ a ∈ tx.current.attachments, a.vaultId = vaultId → a ∈ tx.snapshot.attachments

/-! ## What clients may submit -/

/-- Ciphertexts are current when they are stored, outputs are sealed under the next key
version, and finalizations see the ciphertexts they replace. -/
def sealedTerms (db : Db) : Terms where
  item := SealedNow epoch db
  attachment := SealedNow epoch db
  output := SealedNext epoch
  rotation tx p := SeesCiphertexts tx p.vaultId

/-- An edit may have been sealed earlier: under the key version that was current while the
row was as the edit finds it. -/
def Transaction.SealsCurrent (h : History) : Transaction → Prop
  | item _ (.update input) _ _ => ∀ data row, input.encryptedData = some data →
      h.now.items.get? input.itemId = some row → ∃ db ∈ h.states, row ∈ db.items ∧ SealedNow epoch db row.vaultId data
  | t => t.Meets (sealedTerms epoch h.now) h

/-- Clients may submit whatever they sealed under a key version they once held. -/
def heldTerms (h : History) : Terms where
  item vaultId data := ∃ db ∈ h.states, ∃ v, db.vaults.get? vaultId = some v ∧ epoch data = (vaultId, v.keyVersion)
  attachment vaultId key := ∃ db ∈ h.states, ∃ v, db.vaults.get? vaultId = some v ∧ epoch key = (vaultId, v.keyVersion)
  output := SealedNext epoch
  rotation _ _ := True

/-! ## One step -/

section Step

variable {epoch} {h : History} {db db' : Db}

/-- A ciphertext that was current stays current where its vault keeps its key version. -/
theorem SealedNow.congr {vaultId c : String} (hs : SealedNow epoch db vaultId c)
    (hv : ∀ v', db'.vaults.get? vaultId = some v' → ∃ v, db.vaults.get? vaultId = some v ∧ v.keyVersion = v'.keyVersion) :
    SealedNow epoch db' vaultId c := by
  intro v' hv'
  obtain ⟨v, hget, hkv⟩ := hv v' hv'
  rw [hs v hget, hkv]

theorem Keeps.vault_get? {W A : String → String → Prop} (hk : Keeps W A db db') {vaultId : String} {v' : Vault}
    (hv' : db'.vaults.get? vaultId = some v') :
    ∃ v, db.vaults.get? vaultId = some v ∧ v.keyVersion = v'.keyVersion := by
  obtain ⟨hmem, rfl⟩ := Table.get?_eq_some.mp hv'
  obtain ⟨v, hv, hid, hkv⟩ := hk.vaults v' hmem
  exact ⟨v, hid ▸ Table.get?_key hv, hkv⟩

theorem Keeps.epochsCurrent {W A : String → String → Prop} (hk : Keeps W A db db') (he : EpochsCurrent epoch db)
    (hW : ∀ v c, W v c → SealedNow epoch db v c) (hA : ∀ v c, A v c → SealedNow epoch db v c) :
    EpochsCurrent epoch db' := by
  refine ⟨fun i' hi' => ?_, fun a' ha' => ?_⟩
  · refine SealedNow.congr ?_ fun v' hv' => hk.vault_get? hv'
    rcases hk.items i' hi' with ⟨i, hi, -, hv, hd⟩ | ⟨hw, -⟩
    · rw [← hv, ← hd]; exact he.items i hi
    · exact hW _ _ hw
  · refine SealedNow.congr ?_ fun v' hv' => hk.vault_get? hv'
    rcases hk.attachments a' ha' with ⟨a, ha, -, hv, hd⟩ | ⟨hw, -⟩
    · rw [← hv, ← hd]; exact he.attachments a ha
    · exact hA _ _ hw

/-- A new vault is none of those that have ciphertexts. -/
theorem Founded.epochsCurrent (hf : Founded db db') (hr : db.Referential) (he : EpochsCurrent epoch db) :
    EpochsCurrent epoch db' := by
  obtain ⟨new, hins, -⟩ := hf.vault
  have hold : ∀ vaultId, db.hasVault vaultId = true → ∀ v', db'.vaults.get? vaultId = some v' →
      ∃ v, db.vaults.get? vaultId = some v ∧ v.keyVersion = v'.keyVersion := by
    intro vaultId hhas v' hv'
    obtain ⟨v, hv, hid⟩ := Db.hasVault_iff.mp hhas
    have hne : vaultId ≠ new.id := fun h => Table.insert_fresh hins v hv (hid.trans h)
    rw [Table.get?_insert hins, if_neg hne] at hv'
    exact ⟨v', hv', rfl⟩
  refine ⟨fun i hi => ?_, fun a ha => ?_⟩
  · have hi : i ∈ db.items := hf.items ▸ hi
    exact (he.items i hi).congr (hold _ (hr.items i hi))
  · have ha : a ∈ db.attachments := hf.attachments ▸ ha
    exact (he.attachments a ha).congr (hold _ (hr.attachments a ha))

theorem stagedFor_sealed {p : RotationPlan} {kind : ManifestKind} {id : String} {s : StagedRecord}
    (hp : ∀ s ∈ p.staged, SealedNext epoch p s) (hs : p.stagedFor kind id = some s) :
    s.kind = kind ∧ SealedNext epoch p s := by
  obtain ⟨hmem, hkey⟩ := Table.get?_eq_some.mp hs
  exact ⟨congrArg Prod.fst hkey, hp s hmem⟩

/-- **Finalizations keep ciphertexts current**: those of a rotated vault are replaced by
outputs sealed under its next key version. -/
theorem AllFinalized.epochsCurrent {ps : List RotationPlan} {tx tx' : Versions Db} (hall : AllFinalized ps tx tx')
    (hsees : ∀ p ∈ ps, SeesCiphertexts tx p.vaultId) (hout : OutputsSealed epoch tx.current)
    (he : EpochsCurrent epoch tx.current) : EpochsCurrent epoch tx'.current := by
  have hplan : ∀ p ∈ ps, ∀ s ∈ p.staged, SealedNext epoch p s := fun p hp =>
    hout p (Table.mem_of_get? (hall.completed p hp).2.1)
  refine ⟨fun i' hi' v' hv' => ?_, fun a' ha' v' hv' => ?_⟩
  · by_cases hin : i'.vaultId ∈ ps.map (·.vaultId)
    · obtain ⟨p, hp, hpv⟩ := List.mem_map.mp hin
      obtain ⟨⟨v, -, hver, hafter⟩, hitems, -⟩ := hall.rewritten p hp
      obtain rfl : { v with keyVersion := v.keyVersion + 1 } = v' := Option.some.inj (hafter.symm.trans (hpv ▸ hv'))
      rcases hitems i' hi' hpv.symm with ⟨i, s, hs, hi⟩ | ⟨hcur, hunseen⟩
      · obtain ⟨hkind, hsealed⟩ := stagedFor_sealed (hplan p hp) hs
        rw [SealedNext, hkind] at hsealed
        rw [hi] at hpv ⊢
        exact hsealed.trans (by rw [hpv, hver])
      · exact absurd ((hsees p hp).items i' hcur hpv.symm) hunseen
    · have hsame := hall.others i'.vaultId hin
      exact he.items i' ((hsame.items i' rfl).mp hi') v' (hsame.vault ▸ hv')
  · by_cases hin : a'.vaultId ∈ ps.map (·.vaultId)
    · obtain ⟨p, hp, hpv⟩ := List.mem_map.mp hin
      obtain ⟨⟨v, -, hver, hafter⟩, -, hattachments⟩ := hall.rewritten p hp
      obtain rfl : { v with keyVersion := v.keyVersion + 1 } = v' := Option.some.inj (hafter.symm.trans (hpv ▸ hv'))
      rcases hattachments a' ha' hpv.symm with ⟨a, s, hs, ha⟩ | ⟨hcur, hunseen⟩
      · obtain ⟨hkind, hsealed⟩ := stagedFor_sealed (hplan p hp) hs
        rw [SealedNext, hkind] at hsealed
        rw [ha] at hpv ⊢
        exact hsealed.trans (by rw [hpv, hver])
      · exact absurd ((hsees p hp).attachments a' hcur hpv.symm) hunseen
    · have hsame := hall.others a'.vaultId hin
      exact he.attachments a' ((hsame.attachments a' rfl).mp ha') v' (hsame.vault ▸ hv')

theorem Effect.epochsCurrent (heff : Effect (sealedTerms epoch h.now) h db') (hr : h.now.Referential)
    (he : EpochsCurrent epoch h.now) (hout : OutputsSealed epoch h.now) : EpochsCurrent epoch db' := by
  cases heff with
  | keeps hk => exact hk.epochsCurrent he (fun _ _ h => h) fun _ _ h => h
  | founds hf hk => exact hk.epochsCurrent (hf.epochsCurrent hr he) (fun _ _ h => h.elim) fun _ _ h => h.elim
  | plans hp =>
    obtain ⟨plans, rfl, -⟩ := hp
    exact ⟨he.items, he.attachments⟩
  | finalizes hs hnd hterms hall hsame =>
    obtain ⟨hitems, hattachments⟩ := hall.epochsCurrent hterms hout he
    refine ⟨fun i hi => ?_, fun a ha => ?_⟩
    · exact (hitems i (hsame.items ▸ hi)).congr fun v hv => ⟨v, hsame.vaults ▸ hv, rfl⟩
    · exact (hattachments a (hsame.attachments ▸ ha)).congr fun v hv => ⟨v, hsame.vaults ▸ hv, rfl⟩

theorem Effect.outputsSealed (heff : Effect (sealedTerms epoch h.now) h db')
    (hout : OutputsSealed epoch h.now) : OutputsSealed epoch db' := by
  refine heff.staged (fun p p' s hv hk hs => ?_) hout
  have hs : SealedNext epoch p s := hs
  show SealedNext epoch p' s
  unfold SealedNext at hs ⊢
  rwa [hv, hk]

/-- An edit sealed while the row was as it is now is sealed under the current key version:
the row itself tells which one it is. -/
theorem Transaction.SealsCurrent.meets {t : Transaction} (ht : t.SealsCurrent epoch h)
    (hr : ∀ db ∈ h.states, db.Referential) (he : ∀ db ∈ h.states, EpochsCurrent epoch db) :
    t.Meets (sealedTerms epoch h.now) h := by
  unfold SealsCurrent at ht
  split at ht
  · next userId input seen acl =>
    intro data row hdata hrow v hv
    obtain ⟨db, hdb, hmem, hsealed⟩ := ht data row hdata hrow
    obtain ⟨w, hw, hwid⟩ := Db.hasVault_iff.mp ((hr db hdb).items row hmem)
    have hget : db.vaults.get? row.vaultId = some w := hwid ▸ Table.get?_key hw
    have hthen := (he db hdb).items row hmem w hget
    have hnow := (he h.now (by simp [History.states])).items row (Table.mem_of_get? hrow) v hv
    rw [hsealed w hget, ← hthen, hnow]
  · exact ht

end Step

/-! ## Whole runs -/

/-- **Stored ciphertexts are current** in every state of a run whose clients submit new
ciphertexts sealed under the key version that is current when they are stored, edits sealed
while the row was as the edit finds it, and outputs sealed under the next key version, and
whose finalizations see every ciphertext of the vault. -/
theorem ciphertexts_current (d : Deployment) (h : History)
    (hh : (server d).ReachableUnder (fun h t => t.SealsCurrent epoch h) h) : ∀ db ∈ h.states, EpochsCurrent epoch db := by
  have hI := System.ReachableUnder.invariant
    (fun h => (∀ db ∈ h.states, EpochsCurrent epoch db) ∧ OutputsSealed epoch h.now) ?_ ?_ hh
  · exact hI.1
  · rintro _ rfl
    refine ⟨fun db hdb => ?_, fun p hp => absurd hp (Table.not_mem_empty p)⟩
    obtain rfl : db = Db.empty := by simpa [History.states] using hdb
    exact ⟨fun i hi => absurd hi (Table.not_mem_empty i), fun a ha => absurd ha (Table.not_mem_empty a)⟩
  · intro h t h' hreach hI hseals hstep
    obtain ⟨db', hrun, rfl⟩ := Option.map_eq_some_iff.mp hstep
    have hr := referential_of_reachable hreach.reachable
    have hnow : h.now ∈ h.states := by simp [History.states]
    have heff := Transaction.effect (hr _ hnow) (hseals.meets hr hI.1) hrun
    refine ⟨fun db hdb => ?_, heff.outputsSealed hI.2⟩
    rcases List.mem_cons.mp hdb with rfl | hdb
    · exact heff.epochsCurrent (hr _ hnow) (hI.1 _ hnow) hI.2
    · exact hI.1 db hdb

/-! ## A rotation, and an item created after it -/

/-- Bob has been removed from the vault, whose key is at version 2. -/
def rotatedVault : List Transaction :=
  sharedVault ++ preparedRemoval ++ [.finalizeRemoval 0 0 "ann" "v" "bob" "plan" "rotation" 0]

def createdWith (data : String) : Transaction :=
  .item "ann" (.create ⟨"item", "v", .login, data, "iv", "alg", none⟩) 0 0

def sealedUnder (ciphertext : String) : String × Nat := if ciphertext = "data-1" then ("v", 1) else ("v", 2)

def versionOfV (db : Db) : Option Nat := (db.vaults.get? "v").map (·.keyVersion)

/-- The run up to the rotation, and the database after the next request. -/
def createdAfterRotation (data : String) : Option (History × Db) := do
  let h ← (server selfHosted).run ⟨Db.empty, []⟩ rotatedVault
  let db ← (createdWith data).run selfHosted h
  return (h, db)

theorem createdAfterRotation_some {data : String} {h : History} {db : Db}
    (hrun : createdAfterRotation data = some (h, db)) :
    (server selfHosted).run ⟨Db.empty, []⟩ rotatedVault = some h ∧
      (server selfHosted).step h (createdWith data) = some (h.commit db) := by
  simp only [createdAfterRotation, Option.bind_eq_bind, Option.bind_eq_some_iff, Option.pure_def, Option.some.injEq,
    Prod.mk.injEq] at hrun
  obtain ⟨h, hrun, db, hstep, rfl, rfl⟩ := hrun
  exact ⟨hrun, Option.map_eq_some_iff.mpr ⟨db, hstep, rfl⟩⟩

/-- The run up to the rotation stores no ciphertext. -/
theorem rotatedVault_meets {F : Terms} (hout : ∀ p s, s.kind = .member → F.output p s)
    (hrot : ∀ db p, F.rotation (.still db) p) {t : Transaction} (ht : t ∈ rotatedVault) (h : History) : t.Meets F h := by
  simp only [rotatedVault, sharedVault, preparedRemoval, List.cons_append, List.nil_append, List.mem_cons,
    List.not_mem_nil, or_false] at ht
  rcases ht with rfl | rfl | rfl | rfl | rfl | rfl
  case inr.inr.inr.inr.inl => exact fun p _ s hs => hout p s hs.1
  case inr.inr.inr.inr.inr =>
    intro snapshot p hsnap _
    cases hsnap
    exact hrot h.now p
  all_goals exact trivial

theorem sealedNext_member {epoch : String → String × Nat} (p : RotationPlan) (s : StagedRecord) (hs : s.kind = .member) :
    SealedNext epoch p s := by
  rw [SealedNext, hs]
  exact trivial

/-- An item sealed under version 2 is stored after the rotation. -/
theorem ciphertexts_current_after_rotation : ∃ h db, createdAfterRotation "data-2" = some (h, db) ∧
    ∀ db' ∈ (h.commit db).states, EpochsCurrent sealedUnder db' := by
  have hrun : (createdAfterRotation "data-2").any (fun x => versionOfV x.1.now = some 2) = true := by decide +kernel
  rw [Option.any_eq_true] at hrun
  obtain ⟨⟨h, db⟩, hrun, hversion⟩ := hrun
  obtain ⟨hbefore, hstep⟩ := createdAfterRotation_some hrun
  refine ⟨h, db, hrun, ciphertexts_current sealedUnder selfHosted _ (.step _ (.run (.init rfl) ?_ hbefore) ?_ hstep)⟩
  · intro t ht h
    have hsees : ∀ db (p : RotationPlan), SeesCiphertexts (.still db) p.vaultId := fun db p =>
      ⟨fun _ hi _ => hi, fun _ ha _ => ha⟩
    have hmeets : t.Meets (sealedTerms sealedUnder h.now) h := rotatedVault_meets sealedNext_member hsees ht h
    simp only [rotatedVault, sharedVault, preparedRemoval, List.cons_append, List.nil_append, List.mem_cons,
      List.not_mem_nil, or_false] at ht
    rcases ht with rfl | rfl | rfl | rfl | rfl | rfl <;> exact hmeets
  · intro v hv
    have hversion : (h.now.vaults.get? "v").map (·.keyVersion) = some 2 := of_decide_eq_true hversion
    rw [hv, Option.map_some, Option.some.injEq] at hversion
    rw [hversion]
    decide

/-- Not every run keeps ciphertexts current: an item sealed under version 1 is stored after
the rotation to version 2, and nothing in the request could have told. -/
theorem held_ciphertext_is_stored : ¬ ∀ (epoch : String → String × Nat) (d : Deployment) (h : History),
    (server d).ReachableUnder (fun h t => t.Meets (heldTerms epoch h) h) h → EpochsCurrent epoch h.now := by
  intro hall
  have hrun : (createdAfterRotation "data-1").any (fun x => versionOfV x.2 = some 2 &&
      x.2.items.any (fun i => i.vaultId = "v" && i.encryptedData = "data-1") &&
        x.1.states.any fun db => versionOfV db = some 1) = true := by decide +kernel
  rw [Option.any_eq_true] at hrun
  obtain ⟨⟨h, db⟩, hrun, hcheck⟩ := hrun
  obtain ⟨hbefore, hstep⟩ := createdAfterRotation_some hrun
  simp only [Bool.and_eq_true, decide_eq_true_eq, Table.any_eq_true, List.any_eq_true, versionOfV,
    Option.map_eq_some_iff] at hcheck
  obtain ⟨⟨⟨v, hv, hversion⟩, i, hi, hiv, hdata⟩, old, hold, w, hw, hheld⟩ := hcheck
  have hcurrent := hall sealedUnder selfHosted _ (.step _ (.run (.init rfl) ?_ hbefore) ?_ hstep)
  · have hsealed := hcurrent.items i hi v (hiv ▸ hv)
    rw [hdata, hiv, hversion] at hsealed
    revert hsealed
    decide
  · exact fun t ht h => rotatedVault_meets sealedNext_member (fun _ _ => trivial) ht h
  · exact ⟨old, hold, w, hw, by rw [hheld]; rfl⟩

end Bittery
