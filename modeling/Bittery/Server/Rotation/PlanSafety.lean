/-
Rotation plans are safe along every history of the server, but for rows that a finalization
does not see.

A finalization is one SERIALIZABLE transaction, and every other service writes at READ
COMMITTED. The database refuses a finalization whose rows were changed, and is silent about
rows that were added: an item, an attachment or a member added after the snapshot of the
finalization and before its commit keeps a ciphertext of the old key. Everything else about
plans holds in every run; that a completed plan has rotated all of its vault holds in the
runs whose finalizations see their vaults.
-/
import Bittery.Server.HistoryFacts

namespace Bittery

open Lib

/-! ## What is safe -/

/-- The plans a step has completed, as it leaves them. -/
def completedIn (db db' : Db) : List RotationPlan :=
  db'.plans.select fun p => p.state = .completed && !(db.plans.get? p.id).any fun q => q.state = .completed

/-- **One step is safe** after the history `h`: a state that was terminal at any time is kept,
no plan completes that has completed before, the key version of a vault counts the plans
completed for it, and a plan that completes was prepared from a database of the history and
has rotated its vault. -/
structure PlanSafe (h : History) (db' : Db) : Prop where
  terminal : ∀ db ∈ h.states, ∀ p ∈ db.plans, p.state.isActive = false →
    ∀ p' ∈ db'.plans, p'.id = p.id → p'.state = p.state
  once : ∀ p' ∈ completedIn h.now db', ∀ db ∈ h.states, ∀ p ∈ db.plans, p.id = p'.id → p.state ≠ .completed
  keyVersion : ∀ v ∈ h.now.vaults, ∀ v' ∈ db'.vaults, v'.id = v.id →
    v'.keyVersion = v.keyVersion + (completedIn h.now db').countP fun p => p.vaultId = v.id
  prepared : ∀ p ∈ completedIn h.now db', ∃ db ∈ h.states, p.PreparedFrom db
  rotated : ∀ p ∈ completedIn h.now db', Rotated p h.now db'

/-- Every step of a history is safe; the databases are listed latest first. -/
def PlansSafe : List Db → Prop
  | db' :: db :: past => PlanSafe ⟨db, past⟩ db' ∧ PlansSafe (db :: past)
  | _ => True

/-- Every finalization sees the vault it rotates. -/
def seesVaults : Terms := { Terms.none with rotation := fun tx p => NoPhantom tx p.vaultId }

/-! ## Plans along a step -/

/-- A plan before and after any step. -/
structure RotationPlan.Succeeds (p p' : RotationPlan) : Prop where
  id : p'.id = p.id
  vaultId : p'.vaultId = p.vaultId
  excludedUserId : p'.excludedUserId = p.excludedUserId
  expectedKeyVersion : p'.expectedKeyVersion = p.expectedKeyVersion
  manifest : p'.manifest = p.manifest
  terminal : p.state.isActive = false → p'.state = p.state

theorem RotationPlan.Succeeds.refl (p : RotationPlan) : p.Succeeds p := ⟨rfl, rfl, rfl, rfl, rfl, fun _ => rfl⟩

theorem RotationPlan.Evolves.succeeds {S : RotationPlan → StagedRecord → Prop} {p p' : RotationPlan}
    (h : p.Evolves S p') : p.Succeeds p' :=
  ⟨h.id, h.vaultId, h.excludedUserId, h.expectedKeyVersion, h.manifest, h.terminal⟩

section Step

variable {F : Terms} {h : History} {db' : Db}

/-- After finalizations a plan is as it was, or one of those that were completed. -/
theorem AllFinalized.mem_plans {ps : List RotationPlan} {tx tx' : Versions Db} (h : AllFinalized ps tx tx')
    {p' : RotationPlan} (hp' : p' ∈ tx'.current.plans) :
    p' ∈ tx.current.plans ∧ (∀ p ∈ ps, p.id ≠ p'.id) ∨ ∃ p ∈ ps, p' = { p with state := .completed } := by
  by_cases hin : p'.id ∈ ps.map (·.id)
  · obtain ⟨p, hp, hid⟩ := List.mem_map.mp hin
    have hget := Table.get?_key hp'
    rw [← hid, (h.completed p hp).2.2, Option.some.injEq] at hget
    exact .inr ⟨p, hp, hget.symm⟩
  · have hget := h.otherPlans p'.id hin
    rw [Table.get?_key hp'] at hget
    exact .inl ⟨Table.mem_of_get? hget.symm, fun p hp he => hin (List.mem_map.mpr ⟨p, hp, he⟩)⟩

theorem Effect.mem_plans (he : Effect F h db') {p' : RotationPlan} (hp' : p' ∈ db'.plans) :
    (∃ p ∈ h.now.plans, p.Succeeds p') ∨ p'.Created h.New := by
  cases he with
  | keeps hk => exact .inl ⟨p', hk.plans p' hp', .refl p'⟩
  | founds hf hk => exact .inl ⟨p', hf.plans ▸ hk.plans p' hp', .refl p'⟩
  | plans hp =>
    obtain ⟨plans, rfl, hplans⟩ := hp
    rcases hplans p' hp' with ⟨p, hp, hev⟩ | hnew
    · exact .inl ⟨p, hp, hev.succeeds⟩
    · exact .inr hnew
  | finalizes hs hnd hterms hall hsame =>
    rw [hsame.plans] at hp'
    rcases hall.mem_plans hp' with ⟨hp, -⟩ | ⟨p, hp, rfl⟩
    · exact .inl ⟨p', hp, .refl p'⟩
    · obtain ⟨hactive, hget, -⟩ := hall.completed p hp
      exact .inl ⟨p, Table.mem_of_get? hget, rfl, rfl, rfl, rfl, rfl, fun hfalse => absurd hactive (by simp [hfalse])⟩

/-- A promise about staged outputs that looks at no more of a plan than its vault and its key
version is kept as long as they are staged. -/
theorem Effect.staged (he : Effect F h db')
    (hF : ∀ (p p' : RotationPlan) s, p'.vaultId = p.vaultId → p'.expectedKeyVersion = p.expectedKeyVersion →
      F.output p s → F.output p' s)
    (hout : ∀ p ∈ h.now.plans, ∀ s ∈ p.staged, F.output p s) : ∀ p ∈ db'.plans, ∀ s ∈ p.staged, F.output p s := by
  intro p' hp'
  cases he with
  | keeps hk => exact hout p' (hk.plans p' hp')
  | founds hf hk => exact hout p' (hf.plans ▸ hk.plans p' hp')
  | plans hp =>
    obtain ⟨plans, rfl, hplans⟩ := hp
    rcases hplans p' hp' with ⟨p, hp, hev⟩ | ⟨-, hempty, -⟩
    · exact fun s hs => hF p p' s hev.vaultId hev.expectedKeyVersion ((hev.staged s hs).elim (hout p hp s) id)
    · rw [hempty]
      exact fun s hs => absurd hs (Table.not_mem_empty s)
  | finalizes hs hnd hterms hall hsame =>
    rw [hsame.plans] at hp'
    rcases hall.mem_plans hp' with ⟨hp, -⟩ | ⟨p, hp, rfl⟩
    · exact hout p' hp
    · exact fun s hs => hF p _ s rfl rfl (hout p (Table.mem_of_get? (hall.completed p hp).2.1) s hs)

theorem mem_completedIn {db : Db} {p' : RotationPlan} :
    p' ∈ completedIn db db' ↔ p' ∈ db'.plans ∧ p'.state = .completed ∧
      ∀ p ∈ db.plans, p.id = p'.id → p.state ≠ .completed := by
  simp only [completedIn, Table.mem_select, Bool.and_eq_true, decide_eq_true_eq, Bool.not_eq_true', and_congr_right_iff]
  intro _ _
  rw [Bool.eq_false_iff, ne_eq, Option.any_eq_true]
  constructor
  · intro hno p hp hid hc
    exact hno ⟨p, hid ▸ Table.get?_key hp, decide_eq_true hc⟩
  · rintro hno ⟨q, hq, hc⟩
    exact hno q (Table.mem_of_get? hq) (Table.key_of_get? hq) (of_decide_eq_true hc)

/-- A step that completes nothing. -/
theorem completedIn_eq_nil {db : Db} (hno : ∀ p' ∈ db'.plans, p'.state = .completed →
    ∃ p ∈ db.plans, p.id = p'.id ∧ p.state = .completed) : completedIn db db' = [] := by
  refine List.eq_nil_iff_forall_not_mem.mpr fun p' hp' => ?_
  obtain ⟨hmem, hc, hall⟩ := mem_completedIn.mp hp'
  obtain ⟨p, hp, hid, hpc⟩ := hno p' hmem hc
  exact hall p hp hid hpc

/-- The plans completed by finalizations are the ones that were finalized. -/
theorem AllFinalized.mem_completedIn {ps : List RotationPlan} {tx tx' : Versions Db} (h : AllFinalized ps tx tx')
    (hsame : SameRows tx'.current db') {p' : RotationPlan} :
    p' ∈ completedIn tx.current db' ↔ ∃ p ∈ ps, p' = { p with state := .completed } := by
  rw [Bittery.mem_completedIn, hsame.plans]
  constructor
  · intro ⟨hmem, hc, hno⟩
    rcases h.mem_plans hmem with ⟨hp, -⟩ | hdone
    · exact absurd hc (hno p' hp rfl)
    · exact hdone
  · rintro ⟨p, hp, rfl⟩
    obtain ⟨hactive, hget, hdone⟩ := h.completed p hp
    refine ⟨Table.mem_of_get? hdone, rfl, fun q hq hid hc => ?_⟩
    obtain rfl : q = p := Table.eq_of_key_eq hq (Table.mem_of_get? hget) hid
    rw [hc] at hactive
    cases hactive

theorem completedIn_nodup (db db' : Db) : (completedIn db db').Nodup :=
  (db'.plans.nodup.of_map _).filter _

/-- A vault gets one completed plan when it is rotated, and none when it is not. -/
theorem AllFinalized.countP_completedIn {ps : List RotationPlan} {tx tx' : Versions Db} (h : AllFinalized ps tx tx')
    (hsame : SameRows tx'.current db') (hnd : (ps.map (·.vaultId)).Nodup) (vaultId : String) :
    (completedIn tx.current db').countP (fun p => p.vaultId = vaultId) = if vaultId ∈ ps.map (·.vaultId) then 1 else 0 := by
  have hmem : ∀ p', p' ∈ (completedIn tx.current db').filter (fun p => p.vaultId = vaultId) ↔
      ∃ p ∈ ps, p.vaultId = vaultId ∧ p' = { p with state := .completed } := by
    intro p'
    rw [List.mem_filter, h.mem_completedIn hsame, decide_eq_true_eq]
    constructor
    · rintro ⟨⟨p, hp, rfl⟩, hv⟩; exact ⟨p, hp, hv, rfl⟩
    · rintro ⟨p, hp, hv, rfl⟩; exact ⟨⟨p, hp, rfl⟩, hv⟩
  rw [List.countP_eq_length_filter]
  split
  · next hin =>
    obtain ⟨p, hp, hv⟩ := List.mem_map.mp hin
    -- Every plan of this vault is the one in the list.
    have hone : ∀ p' ∈ (completedIn tx.current db').filter (fun p => p.vaultId = vaultId),
        p' = { p with state := .completed } := by
      intro p' hp'
      obtain ⟨q, hq, hqv, rfl⟩ := (hmem p').mp hp'
      rw [List.inj_on_of_nodup_map hnd hq hp (hqv.trans hv.symm)]
    have hrep := List.eq_replicate_of_mem hone
    have hle := List.nodup_replicate.mp (hrep ▸ (completedIn_nodup tx.current db').filter _)
    have hpos := List.length_pos_of_mem ((hmem _).mpr ⟨p, hp, hv, rfl⟩)
    omega
  · next hout =>
    rw [List.length_eq_zero_iff, List.eq_nil_iff_forall_not_mem]
    intro p' hp'
    obtain ⟨p, hp, hv, -⟩ := (hmem p').mp hp'
    exact hout (List.mem_map.mpr ⟨p, hp, hv⟩)

/-- The key version of a vault along a step. -/
theorem Effect.keyVersion (he : Effect F h db') {v v' : Vault} (hv : v ∈ h.now.vaults) (hv' : v' ∈ db'.vaults)
    (hid : v'.id = v.id) :
    v'.keyVersion = v.keyVersion + (completedIn h.now db').countP fun p => p.vaultId = v.id := by
  cases he with
  | keeps hk =>
    rw [completedIn_eq_nil fun p' hp' hc => ⟨p', hk.plans p' hp', rfl, hc⟩]
    obtain ⟨w, hw, hwid, hkv⟩ := hk.vaults v' hv'
    obtain rfl : w = v := Table.eq_of_key_eq hw hv (hwid.trans hid)
    exact hkv.symm
  | founds hf hk =>
    rw [completedIn_eq_nil fun p' hp' hc => ⟨p', hf.plans ▸ hk.plans p' hp', rfl, hc⟩]
    obtain ⟨w, hw, hwid, hkv⟩ := hk.vaults v' hv'
    obtain ⟨new, hins, -⟩ := hf.vault
    rcases (Table.mem_insert hins w).mp hw with hw | rfl
    · obtain rfl : w = v := Table.eq_of_key_eq hw hv (hwid.trans hid)
      exact hkv.symm
    · exact absurd (hwid.trans hid).symm (Table.insert_fresh hins v hv)
  | plans hp =>
    obtain ⟨plans, rfl, hplans⟩ := hp
    rw [completedIn_eq_nil fun p' hp' hc => ?_]
    · obtain rfl : v' = v := Table.eq_of_key_eq hv' hv hid
      rfl
    · rcases hplans p' hp' with ⟨p, hp, hev⟩ | ⟨hnew, -⟩
      · exact ⟨p, hp, hev.id.symm, hev.completed hc⟩
      · rw [hnew] at hc
        cases hc
  | finalizes hs hnd hterms hall hsame =>
    rename_i ps snapshot tx'
    have hcount := hall.countP_completedIn hsame hnd v.id
    have hv' : v' ∈ tx'.current.vaults := hsame.vaults ▸ hv'
    have hget : tx'.current.vaults.get? v.id = some v' := hid ▸ Table.get?_key hv'
    refine Eq.trans ?_ (congrArg (v.keyVersion + ·) hcount.symm)
    split
    · next hin =>
      obtain ⟨p, hp, hpv⟩ := List.mem_map.mp hin
      obtain ⟨w, hw, -, hw'⟩ := (hall.rewritten p hp).vault
      obtain rfl : w = v := Option.some.inj (hw.symm.trans (hpv ▸ Table.get?_key hv))
      rw [hpv, hget, Option.some.injEq] at hw'
      rw [hw']
    · next hout =>
      have hsameVault := (hall.others v.id hout).vault
      rw [hget] at hsameVault
      obtain rfl : v' = v := Option.some.inj (hsameVault.trans (Table.get?_key hv))
      rfl

/-- A completed plan has rotated its vault, when the terms say that it has seen it. -/
theorem Effect.rotated (he : Effect seesVaults h db') (hr : ∀ db ∈ h.states, db.Referential) :
    ∀ p ∈ completedIn h.now db', Rotated p h.now db' := by
  cases he with
  | keeps hk =>
    rw [completedIn_eq_nil fun p' hp' hc => ⟨p', hk.plans p' hp', rfl, hc⟩]
    exact fun p hp => nomatch hp
  | founds hf hk =>
    rw [completedIn_eq_nil fun p' hp' hc => ⟨p', hf.plans ▸ hk.plans p' hp', rfl, hc⟩]
    exact fun p hp => nomatch hp
  | plans hp =>
    obtain ⟨plans, rfl, hplans⟩ := hp
    rw [completedIn_eq_nil fun p' hp' hc => ?_]
    · exact fun p hp => nomatch hp
    · rcases hplans p' hp' with ⟨p, hp, hev⟩ | ⟨hnew, -⟩
      · exact ⟨p, hp, hev.id.symm, hev.completed hc⟩
      · rw [hnew] at hc
        cases hc
  | finalizes hs hnd hterms hall hsame =>
    rename_i ps snapshot tx'
    intro p' hp'
    obtain ⟨p, hp, rfl⟩ := (hall.mem_completedIn hsame).mp hp'
    have hrot := hall.rotated (hr _ hs).users p hp (hterms p hp)
    have hvault : SameVault p.vaultId tx'.current db' :=
      ⟨by rw [hsame.vaults], fun _ _ => by rw [hsame.items], fun _ _ => by rw [hsame.attachments],
        fun _ _ => by rw [hsame.keys]⟩
    obtain ⟨h₁, h₂, h₃, h₄, h₅, h₆, h₇, h₈, h₉, h₁₀⟩ := hrot.congr (.refl ..) hvault
    exact ⟨h₁, h₂, h₃, h₄, h₅, h₆, h₇, h₈, h₉, h₁₀⟩

end Step

/-! ## Plans along a history -/

/-- What every history has: a state that was ever terminal is the state now, and every plan
was prepared from a database of the history. -/
structure PlansInv (h : History) : Prop where
  terminal : ∀ db ∈ h.states, ∀ p ∈ db.plans, p.state.isActive = false →
    ∀ p' ∈ h.now.plans, p'.id = p.id → p'.state = p.state
  prepared : ∀ p ∈ h.now.plans, ∃ db ∈ h.states, p.PreparedFrom db

section Step

variable {F : Terms} {h : History} {db' : Db}

/-- A plan whose id was there before is not a new one. -/
theorem Effect.mem_plans_of_old (he : Effect F h db') {p' : RotationPlan} (hp' : p' ∈ db'.plans) {db : Db}
    (hdb : db ∈ h.states) {p : RotationPlan} (hp : p ∈ db.plans) (hid : p'.id = p.id) :
    ∃ q ∈ h.now.plans, q.Succeeds p' := by
  rcases he.mem_plans hp' with hold | ⟨-, -, snapshot, ⟨hfresh, -⟩, -⟩
  · exact hold
  · have hnone := List.all_eq_true.mp hfresh db hdb
    rw [hid, Table.get?_key hp] at hnone
    cases hnone

theorem Effect.terminal (he : Effect F h db') (hI : PlansInv h) : ∀ db ∈ h.states, ∀ p ∈ db.plans,
    p.state.isActive = false → ∀ p' ∈ db'.plans, p'.id = p.id → p'.state = p.state := by
  intro db hdb p hp hinactive p' hp' hid
  obtain ⟨q, hq, hsucc⟩ := he.mem_plans_of_old hp' hdb hp hid
  have hstate := hI.terminal db hdb p hp hinactive q hq (hsucc.id.symm.trans hid)
  rw [hsucc.terminal (hstate ▸ hinactive), hstate]

theorem Effect.prepared (he : Effect F h db') (hI : PlansInv h) : ∀ p ∈ db'.plans, ∃ db ∈ h.states, p.PreparedFrom db := by
  intro p' hp'
  rcases he.mem_plans hp' with ⟨p, hp, hsucc⟩ | ⟨-, -, snapshot, ⟨-, hs⟩, hprep⟩
  · obtain ⟨db, hdb, hprep⟩ := hI.prepared p hp
    exact ⟨db, hdb, hprep.congr hsucc.vaultId hsucc.excludedUserId hsucc.expectedKeyVersion hsucc.manifest⟩
  · exact ⟨snapshot, hs, hprep⟩

theorem Effect.plansInv (he : Effect F h db') (hI : PlansInv h) : PlansInv (h.commit db') := by
  refine ⟨fun db hdb p hp hinactive p' hp' hid => ?_, fun p hp => ?_⟩
  · rcases List.mem_cons.mp hdb with rfl | hdb
    · rw [Table.eq_of_key_eq hp' hp hid]
    · exact he.terminal hI db hdb p hp hinactive p' hp' hid
  · obtain ⟨db, hdb, hprep⟩ := he.prepared hI p hp
    exact ⟨db, List.mem_cons_of_mem _ hdb, hprep⟩

/-- All of a safe step but the rotations holds of every step. -/
theorem Effect.planSafe (he : Effect F h db') (hI : PlansInv h)
    (hrot : ∀ p ∈ completedIn h.now db', Rotated p h.now db') : PlanSafe h db' := by
  refine ⟨he.terminal hI, fun p' hp' db hdb p hp hid hc => ?_, fun v hv v' hv' hid => he.keyVersion hv hv' hid,
    fun p hp => he.prepared hI p (mem_completedIn.mp hp).1, hrot⟩
  obtain ⟨hmem, -, hno⟩ := mem_completedIn.mp hp'
  obtain ⟨q, hq, hsucc⟩ := he.mem_plans_of_old hmem hdb hp hid.symm
  have hqid := hsucc.id.symm.trans hid.symm
  exact hno q hq hsucc.id.symm ((hI.terminal db hdb p hp (by rw [hc]; rfl) q hq hqid).trans hc)

end Step

theorem plansInv_of_reachable {d : Deployment} {h : History} (hh : (server d).Reachable h) : PlansInv h := by
  refine System.Reachable.invariant PlansInv ?_ ?_ hh
  · rintro _ rfl
    refine ⟨fun db hdb p hp => ?_, fun p hp => absurd hp (Table.not_mem_empty p)⟩
    obtain rfl : db = Db.empty := by simpa [History.states] using hdb
    exact absurd hp (Table.not_mem_empty p)
  · intro h t h' hreach hI hstep
    obtain ⟨db', hrun, rfl⟩ := Option.map_eq_some_iff.mp hstep
    have hr := referential_of_reachable hreach h.now (by simp [History.states])
    exact (Transaction.effect hr t.meets_none hrun).plansInv hI

/-- **Rotation plans are safe** in every run whose finalizations see the vaults they rotate,
whatever else is mixed with them and in whichever order. -/
theorem plans_safe (d : Deployment) (h : History)
    (hh : (server d).ReachableUnder (fun h t => t.Meets seesVaults h) h) : PlansSafe h.states := by
  refine System.ReachableUnder.invariant (fun h => PlansSafe h.states) ?_ ?_ hh
  · rintro _ rfl
    exact trivial
  · intro h t h' hreach hI hmeets hstep
    obtain ⟨db', hrun, rfl⟩ := Option.map_eq_some_iff.mp hstep
    have hr := referential_of_reachable hreach.reachable
    have he := Transaction.effect (hr h.now (by simp [History.states])) hmeets hrun
    exact ⟨he.planSafe (plansInv_of_reachable hreach.reachable) (he.rotated hr), hI⟩

/-! ## One run that is safe, and one that is not -/

theorem annAndBob_ids : ["ann", "bob"].Nodup := by decide

def annAndBob : Table User.id :=
  ⟨[⟨"ann", "Ann", "pk-ann", some "team", .owner⟩, ⟨"bob", "Bob", "pk-bob", some "team", .member⟩],
    annAndBob_ids⟩

def theirTeam : Table Team.id := ⟨[⟨"team", "Team", "ann", .family, .family, .active⟩], List.nodup_singleton _⟩

def selfHosted : Deployment := ⟨.selfHosted, fun _ => ""⟩

/-- Ann and Bob share a vault. -/
def sharedVault : List Transaction :=
  [.accounts annAndBob .empty theirTeam,
   .createVault "ann" "v" "k-ann" ⟨some "v", "Vault", .team, "key-ann", none, none, none⟩ 0,
   .addVaultMember "ann" "k-bob" ⟨"v", "bob", .member, "key-bob", none⟩ 0]

/-- Ann prepares the removal of Bob. -/
def preparedRemoval : List Transaction :=
  [.createRemovalPlan 0 "plan" "ann" "v" "bob" 0 0,
   .stageOutputs 0 "plan" "ann" .member [⟨"ann", ⟨"key", some [("encryptedVaultKey", "key-2")]⟩⟩]]

/-- Bob is removed by a finalization that nothing overlaps. -/
theorem plans_safe_removal : ∃ h, (server selfHosted).run ⟨Db.empty, []⟩
    (sharedVault ++ preparedRemoval ++ [.finalizeRemoval 0 0 "ann" "v" "bob" "plan" "rotation" 0]) = some h ∧
      PlansSafe h.states := by
  cases hrun : (server selfHosted).run ⟨Db.empty, []⟩
      (sharedVault ++ preparedRemoval ++ [.finalizeRemoval 0 0 "ann" "v" "bob" "plan" "rotation" 0]) with
  | none => exact absurd hrun (Option.ne_none_iff_isSome.mpr (by decide +kernel))
  | some h =>
    refine ⟨h, rfl, plans_safe selfHosted h (System.ReachableUnder.run (.init rfl) (fun t ht h => ?_) hrun)⟩
    simp only [sharedVault, preparedRemoval, List.cons_append, List.nil_append, List.mem_cons, List.not_mem_nil,
      or_false] at ht
    rcases ht with rfl | rfl | rfl | rfl | rfl | rfl
    -- The finalization works on the present database.
    case inr.inr.inr.inr.inr =>
      intro snapshot p hsnap _
      cases hsnap
      exact NoPhantom.still h.now p.vaultId
    all_goals simp [Transaction.Meets, seesVaults, Terms.none]

/-- An item is created after the snapshot of the finalization and before its commit. -/
def unseenItem : List Transaction :=
  sharedVault ++ preparedRemoval ++
    [.item "ann" (.create ⟨"item", "v", .login, "data", "iv", "alg", none⟩) 0 0,
     .finalizeRemoval 0 0 "ann" "v" "bob" "plan" "rotation" 1]

/-- A plan the last step has completed lists no record for an item of its vault. -/
def missesItem : List Db → Bool
  | db' :: db :: _ => (completedIn db db').any fun p => db.items.any fun i =>
      i.vaultId = p.vaultId && (p.manifest.get? (.item, i.id)).isNone
  | _ => false

theorem PlansSafe.not_missesItem : ∀ {states : List Db}, PlansSafe states → missesItem states = false
  | [], _ => rfl
  | [_], _ => rfl
  | db' :: db :: past, ⟨hsafe, _⟩ => by
    rw [missesItem, List.any_eq_false]
    intro p hp hany
    obtain ⟨i, hi, hc⟩ := Table.any_eq_true.mp hany
    rw [Bool.and_eq_true, decide_eq_true_eq] at hc
    obtain ⟨m, s, hm, -⟩ := (hsafe.rotated p hp).items i hi hc.1
    rw [hm] at hc
    exact absurd hc.2 (by simp)

/-- Not every run is safe: the new item keeps a ciphertext of the old key, and is in no manifest. -/
theorem unseen_item_is_missed : ¬ ∀ (d : Deployment) (h : History), (server d).Reachable h → PlansSafe h.states := by
  intro hall
  have hmiss : ((server selfHosted).run ⟨Db.empty, []⟩ unseenItem).any (fun h => missesItem h.states) = true := by
    decide +kernel
  rw [Option.any_eq_true] at hmiss
  obtain ⟨h, hrun, hmiss⟩ := hmiss
  have hreach : (server selfHosted).Reachable h := System.Reachable.run (.init rfl) hrun
  rw [(hall selfHosted h hreach).not_missesItem] at hmiss
  cases hmiss

end Bittery
