/-
The key handles of a rotation.

Each key that the ceremony was given is owned by it, or in the refs of a cleanup that still waits,
or it has been destroyed, and this once. A cleanup waits for every call in flight that was given one
of its refs, since only owned keys are given to a call and the refs are retired with all calls that
are active. That is the invariant of the runs; when the ceremony ends, no cleanup waits.
-/
import Bittery.Client.VaultKeyRotation
import Bittery.Lib.Table
import Mathlib.Data.List.ReduceOption

namespace Bittery

open Lib

/-- How often a key waits to be destroyed by a cleanup. -/
def Cleanup.waitingFor (cleanup : Cleanup) (key : KeyRef) : Nat :=
  if cleanup.phase = .waiting then cleanup.refs.count key else 0

namespace Rotation

variable {s t : Rotation} {key : KeyRef}

/-- How often a key is owned, waits to be destroyed, or was destroyed. -/
def holds (s : Rotation) (key : KeyRef) : Nat :=
  s.ownedRefs.count key + (s.cleanups.map (·.waitingFor key)).sum + s.destroyed.count key

/-- The keys that the ceremony was given. -/
def Made (s : Rotation) (key : KeyRef) : Prop := 1 ≤ key.id ∧ key.id ≤ s.made

instance : Decidable (s.Made key) := inferInstanceAs (Decidable (_ ∧ _))

structure Keeps (s : Rotation) : Prop where
  once : ∀ key, s.holds key = if s.Made key then 1 else 0
  waits : ∀ (i : Nat) call, s.calls[i]? = some ⟨call, none⟩ → ∀ cleanup ∈ s.cleanups, cleanup.phase = .waiting →
    ∀ key ∈ call.keys, key ∈ cleanup.refs → i ∈ cleanup.callsUsingRefs
  intact : ∀ (i : Nat) call, s.calls[i]? = some ⟨call, none⟩ → ∀ key ∈ call.keys, key ∉ s.destroyed
  borrowed : ∀ key ∈ s.masterUnlockKey, key = storeKey

def OwnsNone (s : Rotation) : Prop := s.ownedOldVaultKey = none ∧ s.ownedNewVaultKey = none

def OwnsBoth (s : Rotation) : Prop := s.ownedOldVaultKey = some s.oldKey ∧ s.ownedNewVaultKey = some s.newKey

/-- What is owned where the ceremony waits. -/
def InPhase (s : Rotation) : Prop :=
  match s.await with
  | .generateEncryptionKey => s.ownedNewVaultKey = none ∧ (s.aborted = false → s.ownedOldVaultKey = some s.oldKey)
  | .preparationPage _ | .crypto _ _ _ | .stage _ _ => s.aborted = false → s.OwnsBoth
  | .abandon _ => s.OwnsNone ∧ s.listening = false
  | .retireLast cleanups _ => s.OwnsNone ∧ s.listening = false ∧ cleanups = s.cleanups.length
  | .ended _ => s.OwnsNone ∧ s.listening = false ∧ ∀ cleanup ∈ s.cleanups, cleanup.phase = .done
  | _ => s.OwnsNone

/-! ## Retiring -/

/-- What does not concern the keys may change. -/
theorem Keeps.shift (h : s.Keeps) {await : RotationAwait} {plans : List VaultRotationPlan} {aborted listening didFinalize : Bool} :
    Keeps { s with
      await := await, plans := plans, aborted := aborted, listening := listening, didFinalize := didFinalize } :=
  ⟨h.once, h.waits, h.intact, h.borrowed⟩

theorem mem_activeCryptoCalls {i : Nat} :
    i ∈ s.activeCryptoCalls ↔ ∃ call, s.calls[i]? = some ⟨call, none⟩ := by
  simp only [activeCryptoCalls, List.mem_filter, List.mem_range, Option.any_eq_true, Option.isNone_iff_eq_none]
  constructor
  · rintro ⟨-, ⟨call, settled⟩, hcall, rfl⟩
    exact ⟨call, hcall⟩
  · rintro ⟨call, hcall⟩
    exact ⟨(List.getElem?_eq_some_iff.mp hcall).1, _, hcall, rfl⟩

theorem ownsNone_of_ownedRefs (h : s.ownedRefs = []) : s.OwnsNone := by
  simp only [ownedRefs, List.append_eq_nil_iff, Option.toList_eq_nil_iff] at h
  exact ⟨h.2, h.1⟩

theorem OwnsNone.ownedRefs (h : s.OwnsNone) : s.ownedRefs = [] := by
  rw [Rotation.ownedRefs, h.1, h.2]
  rfl

theorem OwnsNone.retire (h : s.OwnsNone) : s.retireOwnedRefs = s := if_pos h.ownedRefs

theorem ownsNone_retire : s.retireOwnedRefs.OwnsNone := by
  unfold retireOwnedRefs
  split
  · next h => exact ownsNone_of_ownedRefs h
  · exact ⟨rfl, rfl⟩

theorem holds_retire : s.retireOwnedRefs.holds key = s.holds key := by
  unfold retireOwnedRefs
  split
  · rfl
  · simp only [holds, ownedRefs, List.map_append, List.map_cons, List.map_nil, List.sum_append, List.sum_cons,
      List.sum_nil, Cleanup.waitingFor, if_true, Option.toList_none, List.append_nil, List.count_nil]
    omega

theorem Keeps.retire (h : s.Keeps) : s.retireOwnedRefs.Keeps := by
  by_cases hnil : s.ownedRefs = []
  · rwa [(ownsNone_of_ownedRefs hnil).retire]
  have honce : ∀ key, s.retireOwnedRefs.holds key = if s.Made key then 1 else 0 := fun key =>
    holds_retire.trans (h.once key)
  rw [retireOwnedRefs, if_neg hnil] at honce ⊢
  refine ⟨honce, fun i call hcall cleanup hmem hwaiting key hkey href => ?_, h.intact, h.borrowed⟩
  rcases List.mem_append.mp hmem with hmem | hnew
  · exact h.waits i call hcall cleanup hmem hwaiting key hkey href
  · rw [List.mem_singleton.mp hnew]
    exact mem_activeCryptoCalls.mpr ⟨call, hcall⟩

theorem count_le_waiting {cleanup : Cleanup} (hmem : cleanup ∈ s.cleanups) (hwaiting : cleanup.phase = .waiting) :
    cleanup.refs.count key ≤ (s.cleanups.map (·.waitingFor key)).sum := by
  have hle := List.le_sum_of_mem (List.mem_map_of_mem (f := (·.waitingFor key)) hmem)
  rwa [Cleanup.waitingFor, if_pos hwaiting] at hle

/-- A key that the ceremony owns is not in a cleanup and was not destroyed. -/
theorem Keeps.only_owned (h : s.Keeps) (hkey : key ∈ s.ownedRefs) :
    key ∉ s.destroyed ∧ ∀ cleanup ∈ s.cleanups, cleanup.phase = .waiting → key ∉ cleanup.refs := by
  have hone : s.holds key ≤ 1 := by
    rw [h.once key]
    split <;> decide
  have howned := List.count_pos_iff.mpr hkey
  simp only [holds] at hone
  refine ⟨fun hdestroyed => ?_, fun cleanup hmem hwaiting href => ?_⟩
  · have := List.count_pos_iff.mpr hdestroyed
    omega
  · have hle : cleanup.refs.count key ≤ _ := count_le_waiting hmem hwaiting
    have := List.count_pos_iff.mpr href
    omega

/-- A key that the ceremony was not given is not in a cleanup and was not destroyed. -/
theorem Keeps.not_mem_of_not_made (h : s.Keeps) (hmade : ¬ s.Made key) :
    key ∉ s.destroyed ∧ ∀ cleanup ∈ s.cleanups, cleanup.phase = .waiting → key ∉ cleanup.refs := by
  have hzero : s.holds key = 0 := (h.once key).trans (if_neg hmade)
  simp only [holds] at hzero
  refine ⟨List.count_eq_zero.mp (by omega), fun cleanup hmem hwaiting => ?_⟩
  have hle : cleanup.refs.count key ≤ _ := count_le_waiting hmem hwaiting
  exact List.count_eq_zero.mp (by omega)

/-! ## The ends of a plan and of the ceremony -/

structure Linear (s : Rotation) : Prop where
  keeps : s.Keeps
  phase : s.InPhase

theorem Keeps.endPlan (h : s.Keeps) {thrown : Bool} : (s.endPlan thrown).Linear :=
  ⟨h.retire.shift, ownsNone_retire⟩

theorem Keeps.endRotation (h : s.Keeps) (hnone : s.OwnsNone) {outcome : RotationOutcome} :
    (s.endRotation outcome).Linear := by
  unfold Rotation.endRotation
  split
  · rw [hnone.retire]
    exact ⟨h.shift, hnone, rfl, rfl⟩
  · exact ⟨h.shift, hnone, rfl⟩

theorem Keeps.nextPlan (h : s.Keeps) (hnone : s.OwnsNone) {plans : List VaultRotationPlan} : (s.nextPlan plans).Linear := by
  unfold Rotation.nextPlan
  split
  · split
    · have hlast : Keeps { s with plans := [] } := h.shift
      exact hlast.endRotation hnone
    · exact ⟨h.shift, hnone⟩
  · exact ⟨h.shift, hnone⟩

theorem Keeps.nextPage (h : s.Keeps) (hboth : s.aborted = false → s.OwnsBoth) {kind : RotationPreparationKind}
    {nextCursor : Option String} : (s.nextPage kind nextCursor).Linear := by
  unfold Rotation.nextPage
  split
  · exact h.endPlan
  · split
    · exact ⟨h.shift, hboth⟩
    · split
      · exact ⟨h.shift, hboth⟩
      · exact h.endPlan

/-! ## The calls of a page -/

/-- The calls for a page are given the keys of the plan and the one that was borrowed. -/
theorem mem_pageCalls {currentUserId : String} {plan : VaultRotationPlan} {masterUnlockKey : KeyRef}
    {records : RotationRecords} {call : RotationCryptoCall}
    (hcall : some call ∈ s.pageCalls currentUserId plan masterUnlockKey records) (hkey : key ∈ call.keys) :
    key = s.oldKey ∨ key = s.newKey ∨ key = masterUnlockKey := by
  cases records with
  | members records =>
    obtain ⟨member, -, hmember⟩ := List.mem_map.mp hcall
    split at hmember
    all_goals
      obtain rfl := Option.some.inj hmember
      simp only [RotationCryptoCall.keys, List.mem_cons, List.not_mem_nil, or_false] at hkey
      tauto
  | items records =>
    obtain ⟨item, -, hitem⟩ := List.mem_map.mp hcall
    obtain rfl := Option.some.inj hitem
    simp only [RotationCryptoCall.keys, List.mem_cons, List.not_mem_nil, or_false] at hkey
    tauto
  | attachments records =>
    obtain ⟨envelope, -, henvelope⟩ := List.mem_map.mp hcall
    split at henvelope
    · obtain rfl := Option.some.inj henvelope
      simp only [RotationCryptoCall.keys, List.mem_cons, List.not_mem_nil, or_false] at hkey
      tauto
    · cases henvelope

theorem getElem?_makeCalls {calls : List (Option RotationCryptoCall)} {i : Nat} {call : RotationCryptoCall}
    (h : (s.makeCalls calls).calls[i]? = some ⟨call, none⟩) : s.calls[i]? = some ⟨call, none⟩ ∨ some call ∈ calls := by
  simp only [makeCalls, List.getElem?_append] at h
  split at h
  · exact .inl h
  · obtain ⟨made, hmade, hcall⟩ := List.mem_map.mp (List.mem_of_getElem? h)
    obtain rfl : made = call := congrArg ActiveCall.call hcall
    exact .inr (List.reduceOption_mem_iff.mp hmade)

theorem Keeps.makeCalls (h : s.Keeps) (hboth : s.OwnsBoth) {currentUserId : String} {plan : VaultRotationPlan}
    {records : RotationRecords} :
    (s.makeCalls (s.pageCalls currentUserId plan (s.masterUnlockKey.getD storeKey) records)).Keeps := by
  have hborrowed : s.masterUnlockKey.getD storeKey = storeKey := by
    cases hkey : s.masterUnlockKey with
    | none => rfl
    | some key => exact h.borrowed key hkey
  -- a key that a new call is given is owned, or it is the store's
  have hgiven : ∀ call, some call ∈ s.pageCalls currentUserId plan (s.masterUnlockKey.getD storeKey) records →
      ∀ key ∈ call.keys, key ∉ s.destroyed ∧ ∀ cleanup ∈ s.cleanups, cleanup.phase = .waiting → key ∉ cleanup.refs := by
    intro call hcall key hkey
    rcases mem_pageCalls hcall hkey with rfl | rfl | rfl
    · exact h.only_owned (by simp [ownedRefs, hboth.1])
    · exact h.only_owned (by simp [ownedRefs, hboth.2])
    · rw [hborrowed]
      exact h.not_mem_of_not_made (fun hmade => by cases hmade.1)
  refine ⟨h.once, fun i call hcall => ?_, fun i call hcall => ?_, h.borrowed⟩
  · rcases getElem?_makeCalls hcall with hold | hnew
    · exact h.waits i call hold
    · exact fun cleanup hmem hwaiting key hkey href => absurd href ((hgiven call hnew key hkey).2 cleanup hmem hwaiting)
  · rcases getElem?_makeCalls hcall with hold | hnew
    · exact h.intact i call hold
    · exact fun key hkey => (hgiven call hnew key hkey).1

theorem Keeps.preparePage (h : s.Keeps) (hboth : s.aborted = false → s.OwnsBoth) {currentUserId : String}
    {kind : RotationPreparationKind} {page : RotationPreparationPage} (hawait : s.await = .preparationPage kind) :
    (s.preparePage currentUserId kind page).Linear := by
  unfold Rotation.preparePage
  split
  · refine ⟨h, ?_⟩
    simpa only [InPhase, hawait] using hboth
  · split
    · exact h.endPlan
    · next habort =>
      split
      · exact h.endPlan
      · exact ⟨(h.makeCalls (hboth (Bool.not_eq_true _ ▸ habort))).shift, hboth⟩

/-! ## Steps -/

/-- A new key is owned. -/
theorem Keeps.makeKey (h : s.Keeps) (hmade : t.made = s.made + 1)
    (howned : ∀ key, t.ownedRefs.count key = s.ownedRefs.count key + if key = ⟨s.made + 1⟩ then 1 else 0)
    (hcleanups : t.cleanups = s.cleanups) (hdestroyed : t.destroyed = s.destroyed) (hcalls : t.calls = s.calls)
    (hborrowed : t.masterUnlockKey = s.masterUnlockKey) : t.Keeps := by
  refine ⟨fun key => ?_, ?_, ?_, ?_⟩
  · have honce := h.once key
    simp only [holds, howned, hcleanups, hdestroyed] at honce ⊢
    by_cases hkey : key = ⟨s.made + 1⟩
    · subst hkey
      rw [if_neg (fun hold => by have := hold.2; simp at this)] at honce
      rw [if_pos rfl, if_pos ⟨by simp, by simp [hmade]⟩]
      omega
    · have hne : key.id ≠ s.made + 1 := fun hid => hkey (by cases key; simp_all)
      have hiff : t.Made key ↔ s.Made key := by
        simp only [Made, hmade]
        omega
      simp only [if_neg hkey, hiff]
      exact honce
  · rw [hcalls, hcleanups]
    exact h.waits
  · rw [hcalls, hdestroyed]
    exact h.intact
  · rw [hborrowed]
    exact h.borrowed

theorem count_owned {new : KeyRef} : (some new).toList.count key = if key = new then 1 else 0 := by
  rw [Option.toList_some, List.count_singleton]
  simp only [beq_iff_eq, @eq_comm _ new]

theorem Keeps.settleCall (h : s.Keeps) {i : Nat} {call : RotationCryptoCall} {resolved : Bool} :
    Keeps { s with calls := s.calls.set i ⟨call, some resolved⟩ } := by
  have hold : ∀ {j : Nat} {other : RotationCryptoCall}, (s.calls.set i ⟨call, some resolved⟩)[j]? = some ⟨other, none⟩ →
      s.calls[j]? = some ⟨other, none⟩ := by
    intro j other hother
    rw [List.getElem?_set] at hother
    split at hother
    · split at hother <;> cases hother
    · exact hother
  exact ⟨h.once, fun j other hother => h.waits j other (hold hother),
    fun j other hother => h.intact j other (hold hother), h.borrowed⟩

theorem Keeps.destroyRefs (h : s.Keeps) {j : Nat} {refs : List KeyRef} {callsUsingRefs : List Nat}
    (hcleanup : s.cleanups[j]? = some ⟨refs, callsUsingRefs, .waiting⟩)
    (hsettled : ∀ i ∈ callsUsingRefs, i ∉ s.activeCryptoCalls) :
    Keeps { s with
      destroyed := refs ++ s.destroyed, cleanups := s.cleanups.set j ⟨refs, callsUsingRefs, .destroying⟩ } := by
  have hmem : (⟨refs, callsUsingRefs, .waiting⟩ : Cleanup) ∈ s.cleanups := List.mem_of_getElem? hcleanup
  have hold : ∀ cleanup ∈ s.cleanups.set j ⟨refs, callsUsingRefs, .destroying⟩, cleanup.phase = .waiting →
      cleanup ∈ s.cleanups := by
    intro cleanup hcleanup hwaiting
    rcases List.mem_or_eq_of_mem_set hcleanup with hold | rfl
    · exact hold
    · cases hwaiting
  refine ⟨fun key => ?_, fun i call hcall cleanup hcleanup hwaiting => ?_, fun i call hcall key hkey hdestroyed => ?_, h.borrowed⟩
  · have honce := h.once key
    have hset := sum_map_set hcleanup ⟨refs, callsUsingRefs, .destroying⟩ (·.waitingFor key)
    simp only [Cleanup.waitingFor, if_true, reduceCtorEq, if_false] at hset
    simp only [holds, Cleanup.waitingFor] at honce ⊢
    simp only [List.count_append]
    calc _ = _ := ?_
      _ = _ := honce
    simp only [ownedRefs]
    omega
  · exact h.waits i call hcall cleanup (hold cleanup hcleanup hwaiting) hwaiting
  · rcases List.mem_append.mp hdestroyed with href | hdestroyed
    · exact hsettled i (h.waits i call hcall _ hmem rfl key hkey href) (mem_activeCryptoCalls.mpr ⟨call, hcall⟩)
    · exact h.intact i call hcall key hkey hdestroyed

theorem Keeps.finishCleanup (h : s.Keeps) {j : Nat} {refs : List KeyRef} {callsUsingRefs : List Nat}
    (hcleanup : s.cleanups[j]? = some ⟨refs, callsUsingRefs, .destroying⟩) :
    Keeps { s with cleanups := s.cleanups.set j ⟨refs, callsUsingRefs, .done⟩ } := by
  refine ⟨fun key => ?_, fun i call hcall cleanup hmem hwaiting => ?_, h.intact, h.borrowed⟩
  · have hset := sum_map_set hcleanup ⟨refs, callsUsingRefs, .done⟩ (·.waitingFor key)
    simp only [Cleanup.waitingFor, reduceCtorEq, if_false, Nat.add_zero] at hset
    refine Eq.trans ?_ (h.once key)
    simp only [holds, Cleanup.waitingFor, hset]
    rfl
  · rcases List.mem_or_eq_of_mem_set hmem with hold | rfl
    · exact h.waits i call hcall cleanup hold hwaiting
    · cases hwaiting

/-- Cleanups go on, in every phase. -/
theorem InPhase.cleanup (h : s.InPhase) {j : Nat} {cleanup next : Cleanup} (hcleanup : s.cleanups[j]? = some cleanup)
    (hdone : cleanup.phase ≠ .done) (htwait : t.await = s.await) (hold : t.ownedOldVaultKey = s.ownedOldVaultKey)
    (hnew : t.ownedNewVaultKey = s.ownedNewVaultKey) (hkeys : t.oldKey = s.oldKey ∧ t.newKey = s.newKey)
    (hlock : t.aborted = s.aborted ∧ t.listening = s.listening) (hcleanups : t.cleanups = s.cleanups.set j next) :
    t.InPhase := by
  unfold InPhase at h ⊢
  simp only [OwnsNone, OwnsBoth, htwait, hold, hnew, hkeys, hlock, hcleanups, List.length_set] at h ⊢
  cases hawait : s.await with
  | ended outcome =>
    simp only [hawait] at h
    exact absurd (h.2.2 cleanup (List.mem_of_getElem? hcleanup)) hdone
  | _ => simpa only [hawait] using h

/-- The listener retires what is owned, wherever the ceremony waits. -/
theorem InPhase.lock (h : s.InPhase) (hlistening : s.listening = true) (htwait : t.await = s.await)
    (haborted : t.aborted = true) (hnone : t.OwnsNone) : t.InPhase := by
  unfold InPhase at h ⊢
  rw [htwait]
  have hvacuous : ∀ {P : Prop}, t.aborted = false → P := fun hactive => by
    rw [haborted] at hactive
    cases hactive
  cases hawait : s.await with
  | generateEncryptionKey => exact ⟨hnone.2, hvacuous⟩
  | preparationPage kind => exact hvacuous
  | crypto kind calls nextCursor => exact hvacuous
  | stage kind nextCursor => exact hvacuous
  | abandon outcome =>
    simp only [hawait] at h
    exact absurd hlistening (by simp [h.2])
  | retireLast cleanups outcome =>
    simp only [hawait] at h
    exact absurd hlistening (by simp [h.2.1])
  | ended outcome =>
    simp only [hawait] at h
    exact absurd hlistening (by simp [h.2.1])
  | _ => exact hnone

theorem retire_rest : s.retireOwnedRefs.await = s.await ∧ s.retireOwnedRefs.aborted = s.aborted ∧
    s.retireOwnedRefs.listening = s.listening := by
  unfold retireOwnedRefs
  split <;> exact ⟨rfl, rfl, rfl⟩

theorem Linear.step (h : s.Linear) {currentUserId : String} {label : RotationLabel}
    (hstep : s.step currentUserId label = some t) : t.Linear := by
  obtain ⟨hkeeps, hphase⟩ := h
  unfold InPhase at hphase
  cases label with
  | started plans =>
    simp only [Rotation.step] at hstep
    split at hstep
    · next hawait =>
      simp only [hawait] at hphase
      cases plans with
      | none =>
        obtain rfl := Option.some.inj hstep
        exact hkeeps.endRotation hphase
      | some plans =>
        simp only at hstep
        split at hstep
        · obtain rfl := Option.some.inj hstep
          have hplans : Keeps { s with plans := plans } := hkeeps.shift
          exact hplans.endRotation hphase
        · obtain rfl := Option.some.inj hstep
          exact ⟨hkeeps.shift, hphase⟩
    · cases hstep
  | gotMasterUnlockKey answer =>
    simp only [Rotation.step] at hstep
    split at hstep
    · next hguard =>
      obtain ⟨hawait, -, hborrowed⟩ := hguard
      simp only [hawait] at hphase
      cases answer with
      | none =>
        obtain rfl := Option.some.inj hstep
        exact hkeeps.endRotation hphase
      | some found =>
        simp only at hstep
        split at hstep
        · obtain rfl := Option.some.inj hstep
          exact hkeeps.endRotation hphase
        · obtain rfl := Option.some.inj hstep
          have hfound : Keeps { s with masterUnlockKey := found } :=
            ⟨hkeeps.once, hkeeps.waits, hkeeps.intact, hborrowed found rfl⟩
          exact hfound.nextPlan hphase
    · cases hstep
  | openedVaultKey opened =>
    simp only [Rotation.step] at hstep
    split at hstep
    · next hawait =>
      simp only [hawait] at hphase
      split at hstep
      · have hopened : Keeps { s with
            made := s.made + 1, oldKey := ⟨s.made + 1⟩, ownedOldVaultKey := some ⟨s.made + 1⟩ } := by
          refine hkeeps.makeKey rfl (fun key => ?_) rfl rfl rfl rfl
          rw [ownedRefs, List.count_append, Rotation.ownedRefs, hphase.1, List.count_append]
          exact congrArg _ count_owned
        split at hstep
        · obtain rfl := Option.some.inj hstep
          exact hopened.endPlan
        · obtain rfl := Option.some.inj hstep
          exact ⟨hopened.shift, hphase.2, fun _ => rfl⟩
      · obtain rfl := Option.some.inj hstep
        exact hkeeps.endPlan
    · cases hstep
  | generatedKey generated =>
    simp only [Rotation.step] at hstep
    split at hstep
    · next hawait =>
      simp only [hawait] at hphase
      split at hstep
      · have hgenerated : Keeps { s with
            made := s.made + 1, newKey := ⟨s.made + 1⟩, ownedNewVaultKey := some ⟨s.made + 1⟩ } := by
          refine hkeeps.makeKey rfl (fun key => ?_) rfl rfl rfl rfl
          rw [ownedRefs, List.count_append, Rotation.ownedRefs, hphase.1, List.count_append, Nat.add_comm]
          exact congrArg₂ _ (Nat.zero_add _).symm count_owned
        split at hstep
        · obtain rfl := Option.some.inj hstep
          exact hgenerated.endPlan
        · obtain rfl := Option.some.inj hstep
          exact ⟨hgenerated.shift, fun hactive => ⟨hphase.2 hactive, rfl⟩⟩
      · obtain rfl := Option.some.inj hstep
        exact hkeeps.endPlan
    · cases hstep
  | page answer =>
    simp only [Rotation.step] at hstep
    split at hstep
    · next kind hawait =>
      simp only [hawait] at hphase
      cases answer with
      | none =>
        obtain rfl := Option.some.inj hstep
        exact hkeeps.endPlan
      | some page =>
        simp only at hstep
        split at hstep
        · obtain rfl := Option.some.inj hstep
          exact hkeeps.preparePage hphase hawait
        · cases hstep
    · cases hstep
  | cryptoResolved =>
    simp only [Rotation.step] at hstep
    split at hstep
    · next kind numbers nextCursor hawait =>
      simp only [hawait] at hphase
      split at hstep
      · split at hstep
        · obtain rfl := Option.some.inj hstep
          exact hkeeps.nextPage hphase
        · obtain rfl := Option.some.inj hstep
          exact ⟨hkeeps.shift, hphase⟩
      · cases hstep
    · cases hstep
  | cryptoRejected =>
    simp only [Rotation.step] at hstep
    split at hstep
    · split at hstep
      · obtain rfl := Option.some.inj hstep
        exact hkeeps.endPlan
      · cases hstep
    · cases hstep
  | staged done =>
    simp only [Rotation.step] at hstep
    split at hstep
    · next kind nextCursor hawait =>
      simp only [hawait] at hphase
      split at hstep
      · obtain rfl := Option.some.inj hstep
        exact hkeeps.nextPage hphase
      · obtain rfl := Option.some.inj hstep
        exact hkeeps.endPlan
    · cases hstep
  | retired =>
    simp only [Rotation.step] at hstep
    split at hstep
    · next cleanups thrown hawait =>
      simp only [hawait] at hphase
      split at hstep
      · split at hstep
        · obtain rfl := Option.some.inj hstep
          exact hkeeps.endRotation hphase
        · obtain rfl := Option.some.inj hstep
          exact hkeeps.nextPlan hphase
      · cases hstep
    · next cleanups outcome hawait =>
      simp only [hawait] at hphase
      split at hstep
      · next hdone =>
        obtain rfl := Option.some.inj hstep
        refine ⟨hkeeps.shift, hphase.1, hphase.2.1, ?_⟩
        rw [allDone, hphase.2.2, List.take_length, List.all_eq_true] at hdone
        exact fun cleanup hcleanup => of_decide_eq_true (hdone cleanup hcleanup)
      · cases hstep
    · cases hstep
  | finalized done =>
    simp only [Rotation.step] at hstep
    split at hstep
    · next hawait =>
      simp only [hawait] at hphase
      split at hstep
      · obtain rfl := Option.some.inj hstep
        exact ⟨hkeeps.shift, hphase⟩
      · obtain rfl := Option.some.inj hstep
        exact hkeeps.endRotation hphase
    · cases hstep
  | refreshed done =>
    simp only [Rotation.step] at hstep
    split at hstep
    · next hawait =>
      simp only [hawait] at hphase
      split at hstep
      · obtain rfl := Option.some.inj hstep
        exact hkeeps.endRotation hphase
      · obtain rfl := Option.some.inj hstep
        exact ⟨hkeeps.shift, hphase⟩
    · cases hstep
  | markedUnavailable done =>
    simp only [Rotation.step] at hstep
    split at hstep
    · next hawait =>
      simp only [hawait] at hphase
      obtain rfl := Option.some.inj hstep
      exact hkeeps.endRotation hphase
    · cases hstep
  | abandoned =>
    simp only [Rotation.step] at hstep
    split at hstep
    · next outcome hawait =>
      simp only [hawait] at hphase
      obtain rfl := Option.some.inj hstep
      rw [hphase.1.retire]
      exact ⟨hkeeps.shift, hphase.1, hphase.2, rfl⟩
    · cases hstep
  | callSettled i resolved =>
    simp only [Rotation.step] at hstep
    split at hstep
    · obtain rfl := Option.some.inj hstep
      exact ⟨hkeeps.settleCall, hphase⟩
    · cases hstep
  | destroyRefs j =>
    simp only [Rotation.step] at hstep
    split at hstep
    · next refs callsUsingRefs hcleanup =>
      split at hstep
      · next hguard =>
        obtain rfl := Option.some.inj hstep
        exact ⟨hkeeps.destroyRefs hcleanup hguard.2,
          InPhase.cleanup hphase hcleanup (by simp) rfl rfl rfl ⟨rfl, rfl⟩ ⟨rfl, rfl⟩ rfl⟩
      · cases hstep
    · cases hstep
  | destroyed j =>
    simp only [Rotation.step] at hstep
    split at hstep
    · next refs callsUsingRefs hcleanup =>
      obtain rfl := Option.some.inj hstep
      exact ⟨hkeeps.finishCleanup hcleanup,
        InPhase.cleanup hphase hcleanup (by simp) rfl rfl rfl ⟨rfl, rfl⟩ ⟨rfl, rfl⟩ rfl⟩
    · cases hstep
  | storeLocks =>
    simp only [Rotation.step] at hstep
    split at hstep
    · cases hstep
    · obtain rfl := Option.some.inj hstep
      exact ⟨⟨hkeeps.once, hkeeps.waits, hkeeps.intact, hkeeps.borrowed⟩, hphase⟩
  | lockListener =>
    simp only [Rotation.step] at hstep
    split at hstep
    · next hlistening =>
      obtain rfl := Option.some.inj hstep
      have haborted : Keeps { s with aborted := true } := hkeeps.shift
      exact ⟨haborted.retire, InPhase.lock hphase hlistening retire_rest.1 retire_rest.2.1 ownsNone_retire⟩
    · cases hstep

/-! ## Results -/

theorem linear_begun {listening : Bool} : (begun listening).Linear := by
  refine ⟨⟨fun key => ?_, ?_, ?_, ?_⟩, rfl, rfl⟩
  · rw [if_neg (fun hmade => by have := hmade.1; have := hmade.2; simp only [begun] at this; omega)]
    rfl
  all_goals simp [begun]

theorem Reachable.linear {currentUserId : String} (h : (system currentUserId).Reachable s) : s.Linear := by
  refine System.Reachable.invariant Linear ?_ (fun _ _ _ _ hlinear hstep => hlinear.step hstep) h
  rintro _ ⟨listening, rfl⟩
  exact linear_begun

/-- **Destroyed once.** A key that the ceremony was given is destroyed at most once, and it has been when
the ceremony has ended; no other key is destroyed. -/
theorem Reachable.destroyed_once {currentUserId : String} (h : (system currentUserId).Reachable s) (key : KeyRef) :
    s.destroyed.count key ≤ (if s.Made key then 1 else 0) ∧
      ∀ outcome, s.await = .ended outcome → s.destroyed.count key = if s.Made key then 1 else 0 := by
  have hlinear := Reachable.linear h
  have honce := hlinear.keeps.once key
  refine ⟨by rw [← honce, holds]; omega, fun outcome hended => ?_⟩
  have hphase := hlinear.phase
  simp only [InPhase, hended] at hphase
  obtain ⟨hnone, -, hdone⟩ := hphase
  have hwaiting : (s.cleanups.map (·.waitingFor key)).sum = 0 := by
    refine List.sum_eq_zero fun n hn => ?_
    obtain ⟨cleanup, hcleanup, rfl⟩ := List.mem_map.mp hn
    simp [Cleanup.waitingFor, hdone cleanup hcleanup]
  simpa only [holds, hnone.ownedRefs, hwaiting, List.count_nil, Nat.zero_add] using honce

/-- **No key is destroyed in use.** A call in flight was given no key that the ceremony destroyed. -/
theorem Reachable.not_inFlight {currentUserId : String} (h : (system currentUserId).Reachable s) {key : KeyRef}
    (hkey : key ∈ s.destroyed) : ¬ s.InFlight key := by
  rintro ⟨⟨call, settled⟩, hmem, rfl, hgiven⟩
  obtain ⟨i, hcall⟩ := List.getElem?_of_mem hmem
  exact (Reachable.linear h).keeps.intact i call hcall key hgiven hkey

/-- **What a step destroys is not in use**, unless it is the store that destroys the key it lent. -/
theorem Reachable.destroys_iff {currentUserId : String} (h : (system currentUserId).Reachable s) {label : RotationLabel}
    (hstep : s.step currentUserId label = some t) :
    (∀ key ∈ s.destroys label, ¬ s.InFlight key) ↔ s.StoreWaits label := by
  cases label with
  | storeLocks => simp [destroys, StoreWaits]
  | destroyRefs j =>
    refine iff_of_true (fun key hkey hflight => ?_) nofun
    have ht : (system currentUserId).Reachable t := .step (RotationLabel.destroyRefs j) h trivial hstep
    simp only [Rotation.step] at hstep
    split at hstep
    · next refs callsUsingRefs hcleanup =>
      split at hstep
      · obtain rfl := Option.some.inj hstep
        rw [destroys, hcleanup] at hkey
        exact Reachable.not_inFlight ht (List.mem_append_left _ hkey) hflight
      · cases hstep
    · cases hstep
  | _ => exact iff_of_true (fun key hkey => absurd hkey List.not_mem_nil) nofun

end Rotation

end Bittery
