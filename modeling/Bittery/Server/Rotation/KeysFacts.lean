/-
What the plans of a finalization do to the keys, the vaults and the feed, whatever the
transaction has seen.

A key that the transaction has not seen is neither deleted nor rewrapped. Each plan is about
the keys of its own vault, and the plans of a departure are of different vaults, so what one
of them does is read off at the database the transaction began on.
-/
import Bittery.Server.Rotation.DepartureFacts

namespace Bittery

open Lib

variable {tx tx₁ tx' : Versions Db} {plan : RotationPlan} {vault : Vault} {now : Time} {planId userId rotationId : String}

/-! ## The events -/

theorem FinalizedInTurn.events {ps : List RotationPlan} {es : List SyncEvent} (h : FinalizedInTurn userId ps es tx tx') :
    tx'.current.events = tx.current.events ++ es ∧ ∀ p ∈ ps, p.Revokes es := by
  induction h with
  | nil tx => exact ⟨(List.append_nil _).symm, fun p hp => absurd hp List.not_mem_nil⟩
  | cons hf hevents hrevokes _ _ _ ih =>
    refine ⟨by rw [ih.1, hevents, List.append_assoc], fun q hq user huser => ?_⟩
    rcases List.mem_cons.mp hq with rfl | hq
    · obtain ⟨e, he, hrevoked⟩ := hrevokes user huser
      exact ⟨e, List.mem_append_left _ he, hrevoked⟩
    · obtain ⟨e, he, hrevoked⟩ := ih.2 q hq user huser
      exact ⟨e, List.mem_append_right _ he, hrevoked⟩

/-! ## The keys -/

/-- The keys of a vault before and after its rotation. -/
def RotationPlan.RotatesKeys (p : RotationPlan) (tx : Versions Db) (db' : Db) : Prop :=
  ∀ k', k'.vaultId = p.vaultId → (k' ∈ db'.vaultKeys ↔ ∃ k ∈ tx.current.vaultKeys,
    ¬ (p.excludes k = true ∧ k ∈ tx.snapshot.vaultKeys) ∧
      (if p.rewrapsKey k = true ∧ k ∈ tx.snapshot.vaultKeys then k.rewrap p else k) = k')

theorem ite_rewrap_vaultId {p : RotationPlan} {k : VaultKey} {c : Prop} [Decidable c] :
    (if c then k.rewrap p else k).vaultId = k.vaultId ∧ (if c then k.rewrap p else k).userId = k.userId ∧
      (if c then k.rewrap p else k).id = k.id := by
  split
  · exact ⟨(VaultKey.rewrap_vaultId k).1, (VaultKey.rewrap_vaultId k).2, VaultKey.rewrap_id k⟩
  · exact ⟨rfl, rfl, rfl⟩

theorem RotationPlan.RotatesKeys.congr {p : RotationPlan} {db₁ db' : Db} (h : p.RotatesKeys tx₁ db₁)
    (hs : SameVault p.vaultId tx.snapshot tx₁.snapshot) (hc : SameVault p.vaultId tx.current tx₁.current)
    (hb : SameVault p.vaultId db₁ db') : p.RotatesKeys tx db' := by
  intro k' hk'
  have hseen : ∀ k : VaultKey, k.vaultId = p.vaultId → (k ∈ tx₁.snapshot.vaultKeys ↔ k ∈ tx.snapshot.vaultKeys) := hs.keys
  rw [hb.keys k' hk', h k' hk']
  constructor
  · rintro ⟨k, hk, hnot, rfl⟩
    have hv : k.vaultId = p.vaultId := by rw [ite_rewrap_vaultId.1] at hk'; exact hk'
    refine ⟨k, (hc.keys k hv).mp hk, by rwa [← hseen k hv], by simp only [hseen k hv]⟩
  · rintro ⟨k, hk, hnot, rfl⟩
    have hv : k.vaultId = p.vaultId := by rw [ite_rewrap_vaultId.1] at hk'; exact hk'
    refine ⟨k, (hc.keys k hv).mpr hk, by rwa [hseen k hv], by simp only [hseen k hv]⟩

/-- **The keys of a rotated vault**, whatever the transaction has seen of it. -/
theorem FinalizedInTurn.rotatesKeys {ps : List RotationPlan} {es : List SyncEvent}
    (h : FinalizedInTurn userId ps es tx tx') : ∀ p ∈ ps, p.RotatesKeys tx tx'.current := by
  induction h with
  | nil tx => exact fun p hp => absurd hp List.not_mem_nil
  | cons hf _ _ hvault hid hrest ih =>
    intro q hq
    rcases List.mem_cons.mp hq with rfl | hq
    · have hnot : q.vaultId ∉ (_ : List RotationPlan).map (·.vaultId) := fun hin => by
        obtain ⟨r, hr, he⟩ := List.mem_map.mp hin
        exact hvault r hr he
      intro k' hk'
      rw [(hrest.all.others q.vaultId hnot).keys k' hk', hf.keys, mem_keysAfter]
    · obtain ⟨hs, hc⟩ := hf.others q.vaultId (hvault q hq)
      exact (ih q hq).congr hs hc (.refl ..)

/-- Each vault is rotated by one plan at most. -/
theorem FinalizedInTurn.eq_of_vaultId {ps : List RotationPlan} {es : List SyncEvent}
    (h : FinalizedInTurn userId ps es tx tx') {p q : RotationPlan} (hp : p ∈ ps) (hq : q ∈ ps)
    (hv : p.vaultId = q.vaultId) : p = q := by
  induction h with
  | nil tx => cases hp
  | cons hf _ _ hvault _ _ ih =>
    rcases List.mem_cons.mp hp with rfl | hp' <;> rcases List.mem_cons.mp hq with rfl | hq'
    · rfl
    · exact absurd hv.symm (hvault q hq')
    · exact absurd hv (hvault p hp')
    · exact ih hp' hq'

/-- The same key before and after a rotation: it may be wrapped anew. -/
structure VaultKey.Stays (k k' : VaultKey) : Prop where
  id : k'.id = k.id
  vaultId : k'.vaultId = k.vaultId
  userId : k'.userId = k.userId
  role : k'.role = k.role

theorem VaultKey.Stays.refl (k : VaultKey) : k.Stays k := ⟨rfl, rfl, rfl, rfl⟩

theorem VaultKey.Stays.ite_rewrap {p : RotationPlan} {c : Prop} [Decidable c] (k : VaultKey) :
    k.Stays (if c then k.rewrap p else k) := by
  refine ⟨ite_rewrap_vaultId.2.2, ite_rewrap_vaultId.1, ite_rewrap_vaultId.2.1, ?_⟩
  split
  · unfold VaultKey.rewrap
    cases p.stagedFor .member k.userId <;> rfl
  · rfl

/-- Finalizations add no key. -/
theorem FinalizedInTurn.mem_keys {ps : List RotationPlan} {es : List SyncEvent} (h : FinalizedInTurn userId ps es tx tx')
    {k' : VaultKey} (hk' : k' ∈ tx'.current.vaultKeys) : ∃ k ∈ tx.current.vaultKeys, k.Stays k' ∧
      ∀ p ∈ ps, p.vaultId = k.vaultId → ¬ (p.excludes k = true ∧ k ∈ tx.snapshot.vaultKeys) := by
  by_cases hin : k'.vaultId ∈ ps.map (·.vaultId)
  · obtain ⟨p, hp, hpv⟩ := List.mem_map.mp hin
    obtain ⟨k, hk, hnot, rfl⟩ := (h.rotatesKeys p hp k' hpv.symm).mp hk'
    refine ⟨k, hk, .ite_rewrap k, fun q hq hqv => ?_⟩
    have hqp : q.vaultId = p.vaultId := hqv.trans (hpv.trans ite_rewrap_vaultId.1).symm
    rw [h.eq_of_vaultId hq hp hqp]
    exact hnot
  · refine ⟨k', ((h.all.others k'.vaultId hin).keys k' rfl).mp hk', .refl k', fun p hp hpv => ?_⟩
    exact absurd (List.mem_map.mpr ⟨p, hp, hpv⟩) hin

/-- Finalizations delete no key but those they exclude. -/
theorem FinalizedInTurn.stays {ps : List RotationPlan} {es : List SyncEvent} (h : FinalizedInTurn userId ps es tx tx')
    {k : VaultKey} (hk : k ∈ tx.current.vaultKeys)
    (hx : ∀ p ∈ ps, p.vaultId = k.vaultId → some k.userId ≠ p.excludedUserId) :
    ∃ k' ∈ tx'.current.vaultKeys, k.Stays k' := by
  by_cases hin : k.vaultId ∈ ps.map (·.vaultId)
  · obtain ⟨p, hp, hpv⟩ := List.mem_map.mp hin
    refine ⟨_, (h.rotatesKeys p hp _ (ite_rewrap_vaultId.1.trans hpv.symm)).mpr ⟨k, hk, fun hex => ?_, rfl⟩, .ite_rewrap k⟩
    simp only [RotationPlan.excludes, Bool.and_eq_true, decide_eq_true_eq] at hex
    exact hx p hp hpv hex.1.2
  · exact ⟨k, ((h.all.others k.vaultId hin).keys k rfl).mpr hk, .refl k⟩

/-- The remaining keys that the transaction sees have staged outputs. -/
theorem FinalizedInTurn.covered {ps : List RotationPlan} {es : List SyncEvent} (h : FinalizedInTurn userId ps es tx tx') :
    ∀ p ∈ ps, ∀ k ∈ tx.snapshot.vaultKeys, k.vaultId = p.vaultId → some k.userId ≠ p.excludedUserId →
      (tx.snapshot.users.get? k.userId).isSome = true → ∃ s, p.stagedFor .member k.userId = some s := by
  induction h with
  | nil tx => exact fun p hp => absurd hp List.not_mem_nil
  | cons hf _ _ hvault _ _ ih =>
    intro q hq k hk hv hx hu
    rcases List.mem_cons.mp hq with rfl | hq
    · exact hf.covered.keys k hk hv hx hu
    · have hk' := ((hf.others q.vaultId (hvault q hq)).1.keys k hv).mpr hk
      exact ih q hq k hk' hv hx (by rw [hf.users.1]; exact hu)

/-- The vaults differ in their key versions at most. -/
theorem FinalizedInTurn.vaults {ps : List RotationPlan} {es : List SyncEvent} (h : FinalizedInTurn userId ps es tx tx') :
    ∀ v' ∈ tx'.current.vaults, ∃ v ∈ tx.current.vaults, v' = { v with keyVersion := v'.keyVersion } := by
  induction h with
  | nil tx => exact fun v hv => ⟨v, hv, rfl⟩
  | cons hf _ _ _ _ _ ih =>
    intro v' hv'
    obtain ⟨v₁, hv₁, heq⟩ := ih v' hv'
    rw [hf.vaults, RotationPlan.vaultsAfter] at hv₁
    obtain ⟨v, hv, he⟩ := Table.mem_updateWhere.mp hv₁
    refine ⟨v, hv, heq.trans ?_⟩
    rw [← he]
    split <;> rfl

end Bittery
