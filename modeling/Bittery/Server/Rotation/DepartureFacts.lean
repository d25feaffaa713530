/-
A departure is all or nothing.

The plans of a departure rotate pairwise different vaults, so each finalization finds its
vault as the transaction found it, and leaves the vaults rotated before it alone. With the
checks on the supplied list, every affected vault is rotated by exactly one plan.
-/
import Bittery.Server.Rotation.Departure
import Bittery.Server.Rotation.PlansFacts

namespace Bittery

open Lib

variable {tx tx' : Versions Db} {now begun : Time} {teamId actorId targetId personalTeamId planId rotationId : String}
  {intent : Intent} {mode : DeploymentMode}

/-! ## The supplied plans -/

theorem sameSet_iff {a b : List String} : sameSet a b = true ↔ ∀ x, x ∈ a ↔ x ∈ b := by
  simp only [sameSet, Bool.and_eq_true, List.all_eq_true, decide_eq_true_eq]
  exact ⟨fun h x => ⟨h.1 x, h.2 x⟩, fun h => ⟨fun x => (h x).1, fun x => (h x).2⟩⟩

theorem exactPlanSet_ok {expected supplied : List String} (h : exactPlanSet expected supplied = .ok ⟨⟩) :
    supplied.Nodup ∧ ∀ v, v ∈ supplied ↔ v ∈ expected := by
  unfold exactPlanSet at h
  split at h; · cases h
  next hnd =>
  split at h; · cases h
  next hset => exact ⟨not_not.mp hnd, sameSet_iff.mp (not_not.mp hset)⟩

/-- The supplied plans are plans of this departure, one for each affected vault. -/
structure PlansFor (db : Db) (actorId targetId : String) (expected planIds : List String) (ps : List RotationPlan) :
    Prop where
  found : List.Forall₂ (fun id p => db.plans.get? id = some p) planIds ps
  nodup : (ps.map (·.vaultId)).Nodup
  exact : ∀ v, v ∈ ps.map (·.vaultId) ↔ v ∈ expected
  initiator : ∀ p ∈ ps, p.initiatorUserId = actorId
  excluded : ∀ p ∈ ps, p.excludedUserId = some targetId

theorem lockDeparturePlans_ok {expected planIds : List String}
    (h : lockDeparturePlans tx begun teamId actorId targetId intent expected planIds = .ok ⟨⟩) :
    ∃ ps, PlansFor tx.snapshot actorId targetId expected planIds ps := by
  simp only [lockDeparturePlans, Except.bind_ok_iff] at h
  obtain ⟨ps, hps, ⟨⟩, hexact, hmatch⟩ := h
  obtain ⟨hnd, hset⟩ := exactPlanSet_ok hexact
  have hall : ∀ p ∈ ps, p.initiatorUserId = actorId ∧ p.excludedUserId = some targetId := by
    intro p hp
    split at hmatch
    · cases hmatch
    next hany =>
    simp only [List.any_eq_true, not_exists, not_and, Bool.or_eq_true, decide_eq_true_eq, not_or, not_not, ne_eq] at hany
    exact ⟨(hany p hp).1.1.1, (hany p hp).1.1.2⟩
  refine ⟨ps, (Except.mapM_ok hps).imp fun id p hp => ?_, hnd, hset, fun p hp => (hall p hp).1,
    fun p hp => (hall p hp).2⟩
  exact (lockPlanPolicy_ok (Except.mapError_ok_iff.mp hp)).1

/-! ## One plan after the other -/

/-- The plans of a list, each of which rotates a vault of its own, finalized in turn. -/
structure AllFinalized (ps : List RotationPlan) (tx tx' : Versions Db) : Prop where
  rotated : tx.snapshot.KeysHaveUsers → ∀ p ∈ ps, NoPhantom tx p.vaultId → Rotated p tx.current tx'.current
  rewritten : ∀ p ∈ ps, Rewritten p tx tx'.current
  completed : ∀ p ∈ ps, p.state.isActive = true ∧ tx.current.plans.get? p.id = some p ∧
    tx'.current.plans.get? p.id = some { p with state := .completed }
  otherPlans : ∀ id, id ∉ ps.map (·.id) → tx'.current.plans.get? id = tx.current.plans.get? id
  referential : tx.current.Referential → tx'.current.Referential
  others : ∀ v, v ∉ ps.map (·.vaultId) → SameVault v tx.current tx'.current
  users : tx'.snapshot.users = tx.snapshot.users ∧ tx'.current.users = tx.current.users
  teams : tx'.snapshot.teams = tx.snapshot.teams ∧ tx'.current.teams = tx.current.teams
  sessions : tx'.snapshot.sessions = tx.snapshot.sessions ∧ tx'.current.sessions = tx.current.sessions

/-- Plans of different vaults are different rows. -/
theorem plan_id_ne {db : Db} {p q : RotationPlan} (hp : p ∈ db.plans) (hq : q ∈ db.plans) (h : p.vaultId ≠ q.vaultId) :
    q.id ≠ p.id := fun he => h (congrArg (·.vaultId) (Table.eq_of_key_eq hp hq he.symm))

theorem forall₂_imp_mem {α β : Type} {R S : α → β → Prop} : ∀ {l : List α} {u : List β}, List.Forall₂ R l u →
    (∀ a, ∀ b ∈ u, R a b → S a b) → List.Forall₂ S l u
  | _, _, .nil, _ => .nil
  | _, _, .cons hab h, f => .cons (f _ _ (by simp) hab) (forall₂_imp_mem h fun a b hb => f a b (by simp [hb]))

theorem forall₂_exists_of_mem_right {α β : Type} {R : α → β → Prop} : ∀ {l : List α} {u : List β},
    List.Forall₂ R l u → ∀ {b}, b ∈ u → ∃ a ∈ l, R a b
  | _, _, .cons (b := b') hab h, b, hb => by
    rcases List.mem_cons.mp hb with rfl | hb
    · exact ⟨_, by simp, hab⟩
    · obtain ⟨a, ha, hr⟩ := forall₂_exists_of_mem_right h hb
      exact ⟨a, by simp [ha], hr⟩

theorem AllFinalized.nil (tx : Versions Db) : AllFinalized [] tx tx := by
  refine ⟨fun _ p hp => ?_, fun p hp => ?_, fun p hp => ?_, fun _ _ => rfl, fun hr => hr, fun v _ => .refl v _,
    ⟨rfl, rfl⟩, ⟨rfl, rfl⟩, ⟨rfl, rfl⟩⟩ <;> cases hp

/-- One plan, and then others of other vaults. -/
theorem AllFinalized.cons {planId : String} {plan : RotationPlan} {vault : Vault} {ps : List RotationPlan}
    {tx tx₁ tx' : Versions Db} (hf : Finalized planId actorId plan vault tx tx₁)
    (hvault : ∀ q ∈ ps, q.vaultId ≠ plan.vaultId) (hid : ∀ q ∈ ps, q.id ≠ plan.id) (h : AllFinalized ps tx₁ tx') :
    AllFinalized (plan :: ps) tx tx' := by
  have hnot : plan.vaultId ∉ ps.map (·.vaultId) := fun hin => by
    obtain ⟨q, hq, he⟩ := List.mem_map.mp hin
    exact hvault q hq he
  have hnotId : plan.id ∉ ps.map (·.id) := fun hin => by
    obtain ⟨q, hq, he⟩ := List.mem_map.mp hin
    exact hid q hq he
  obtain ⟨hthere, hafter⟩ := hf.completed
  refine ⟨fun hu q hq hnp => ?_, fun q hq => ?_, fun q hq => ?_, fun id hne => ?_,
    fun hr => h.referential (hf.referential hr), fun v hv => ?_, ?_, ?_, ?_⟩
  · rcases List.mem_cons.mp hq with rfl | hq
    · exact (hf.rotated hu hnp).congr (.refl ..) (h.others _ hnot)
    · obtain ⟨hs, hc⟩ := hf.others q.vaultId (hvault q hq)
      exact (h.rotated (hf.keysHaveUsers hu) q hq (hnp.congr hs hc)).congr hc (.refl ..)
  · rcases List.mem_cons.mp hq with rfl | hq
    · exact hf.rewritten.congr (.refl ..) (.refl ..) (h.others _ hnot)
    · obtain ⟨hs, hc⟩ := hf.others q.vaultId (hvault q hq)
      exact (h.rewritten q hq).congr hs.symm hc.symm (.refl ..)
  · rcases List.mem_cons.mp hq with rfl | hq
    · refine ⟨hf.locked.active, hthere, ?_⟩
      rw [h.otherPlans _ hnotId, hafter]
    · obtain ⟨hactive, hget, hdone⟩ := h.completed q hq
      rw [hf.plans, get?_plansAfter_of_ne (hid q hq)] at hget
      exact ⟨hactive, hget, hdone⟩
  · rw [List.map_cons, List.mem_cons, not_or] at hne
    rw [h.otherPlans id hne.2, hf.plans, get?_plansAfter_of_ne hne.1]
  · rw [List.map_cons, List.mem_cons, not_or] at hv
    exact (hf.others v hv.1).2.trans (h.others v hv.2)
  · exact ⟨h.users.1.trans hf.users.1, h.users.2.trans hf.users.2⟩
  · exact ⟨h.teams.1.trans hf.teams.1, h.teams.2.trans hf.teams.2⟩
  · exact ⟨h.sessions.1.trans hf.sessions.1, h.sessions.2.trans hf.sessions.2⟩

/-- The last event of a rotation goes to the user whose keys it deletes. -/
def RotationPlan.Revokes (p : RotationPlan) (es : List SyncEvent) : Prop :=
  ∀ user, p.excludedUserId = some user →
    ∃ e ∈ es, e.eventType = .vaultAccessRevoked ∧ e.entityId = p.vaultId ∧ e.userId = user

/-- The plans of a list, of different vaults, finalized one after the other, with the events that
have been recorded. -/
inductive FinalizedInTurn (actorId : String) : List RotationPlan → List SyncEvent → Versions Db → Versions Db → Prop
  | nil (tx : Versions Db) : FinalizedInTurn actorId [] [] tx tx
  | cons {planId : String} {plan : RotationPlan} {vault : Vault} {ps : List RotationPlan} {es es' : List SyncEvent}
      {tx tx₁ tx' : Versions Db} (hf : Finalized planId actorId plan vault tx tx₁)
      (hevents : tx₁.current.events = tx.current.events ++ es) (hrevokes : plan.Revokes es)
      (hvault : ∀ q ∈ ps, q.vaultId ≠ plan.vaultId) (hid : ∀ q ∈ ps, q.id ≠ plan.id)
      (h : FinalizedInTurn actorId ps es' tx₁ tx') : FinalizedInTurn actorId (plan :: ps) (es ++ es') tx tx'

theorem mem_numbered {e : SyncEvent} {es : List SyncEvent} (he : e ∈ es) (n : Nat) :
    ∃ m, { e with seq := m } ∈ numbered n es := by
  induction es generalizing n with
  | nil => cases he
  | cons e' es ih =>
    rcases List.mem_cons.mp he with rfl | he
    · exact ⟨n, List.mem_cons_self ..⟩
    · obtain ⟨m, hm⟩ := ih he (n + 1)
      exact ⟨m, List.mem_cons_of_mem _ hm⟩

/-- The events of a rotation. -/
theorem finalizeLockedPlan_events {r : RotationResult}
    (h : finalizeLockedPlan tx now planId actorId rotationId = .ok (tx', r)) :
    ∃ plan vault es, Finalized planId actorId plan vault tx tx' ∧ tx'.current.events = tx.current.events ++ es ∧
      plan.Revokes es := by
  obtain ⟨plan, vault, hf⟩ := finalizeLockedPlan_finalized h
  obtain ⟨plan', vault', tx₁, hlock, -, happ, rfl, -⟩ := finalizeLockedPlan_ok h
  obtain rfl : plan' = plan := Option.some.inj (hlock.foundPlan.symm.trans hf.locked.foundPlan)
  obtain ⟨s, c, -, -, rfl⟩ := happ.result
  refine ⟨plan', vault, _, hf, by rw [appendEvents_current]; rfl, fun user huser => ?_⟩
  have hlast : ⟨0, .vaultAccessRevoked, plan'.vaultId, .vault, some plan'.vaultId, user, vault'.keyVersion + 1, none,
      some (.rotation rotationId)⟩ ∈ rotationEvents (plan'.after (vault'.keyVersion + 1) s tx.snapshot tx.snapshot) plan'
        rotationId (vault'.keyVersion + 1) := by simp [rotationEvents, huser]
  obtain ⟨m, hm⟩ := mem_numbered hlast (plan'.after (vault'.keyVersion + 1) c tx.snapshot tx.current).nextSeq
  exact ⟨_, hm, rfl, rfl, rfl⟩

theorem finalizePlans_inTurn : ∀ {plans : List (String × String)} {ps : List RotationPlan} {tx tx' : Versions Db}
    {rotations : List RotationResult}, finalizePlans now actorId plans tx = .ok (tx', rotations) →
    List.Forall₂ (fun x p => tx.snapshot.plans.get? x.1 = some p) plans ps → (ps.map (·.vaultId)).Nodup →
    ∃ es, FinalizedInTurn actorId ps es tx tx'
  | [], _, tx, tx', rotations, h, .nil, _ => by
    cases h
    exact ⟨[], .nil tx⟩
  | (planId, rotationId) :: plans, p :: ps, tx, tx', rotations, h, .cons hp hps, hnd => by
    simp only [finalizePlans, Except.bind_ok_iff, Except.mapError_ok_iff, Prod.exists, Except.pure_ok_iff] at h
    obtain ⟨tx₁, r, hfin, tx₂, rs, hrest, he⟩ := h
    cases he
    obtain ⟨plan, vault, es, hf, hevents, hrevokes⟩ := finalizeLockedPlan_events hfin
    obtain rfl : plan = p := Option.some.inj (hf.locked.foundPlan.symm.trans hp)
    rw [List.map_cons, List.nodup_cons] at hnd
    have hvault : ∀ q ∈ ps, q.vaultId ≠ plan.vaultId := fun q hq he => hnd.1 (he ▸ List.mem_map_of_mem hq)
    have hid : ∀ q ∈ ps, q.id ≠ plan.id := fun q hq => by
      obtain ⟨x, -, hx⟩ := forall₂_exists_of_mem_right hps hq
      exact plan_id_ne (Table.mem_of_get? hp) (Table.mem_of_get? hx) (hvault q hq).symm
    -- The other plans are where they were: their rows are different ones.
    have hps' : List.Forall₂ (fun x q => tx₁.snapshot.plans.get? x.1 = some q) plans ps := by
      refine forall₂_imp_mem hps fun x q hq hx => ?_
      rw [hf.plansSeen, get?_plansAfter_of_ne (Table.key_of_get? hx ▸ hid q hq), hx]
    obtain ⟨es', hrest⟩ := finalizePlans_inTurn hrest hps' hnd.2
    exact ⟨es ++ es', .cons hf hevents hrevokes hvault hid hrest⟩

theorem FinalizedInTurn.all {ps : List RotationPlan} {es : List SyncEvent} (h : FinalizedInTurn actorId ps es tx tx') :
    AllFinalized ps tx tx' := by
  induction h with
  | nil tx => exact .nil tx
  | cons hf _ _ hvault hid _ ih => exact .cons hf hvault hid ih

/-! ## The whole departure -/

/-- **A departure that happened.** The plans are one for each affected vault, and have
rotated it; every other vault is left alone; the target holds no key of a vault of the team
any more and is a member of a personal team. -/
structure Departed (db db' : Db) (teamId targetId : String) (ps : List RotationPlan) : Prop where
  nodup : (ps.map (·.vaultId)).Nodup
  exact : ∀ v, v ∈ ps.map (·.vaultId) ↔ v ∈ affectedVaults db teamId targetId
  rotated : ∀ p ∈ ps, Rotated p db db'
  others : ∀ v, v ∉ affectedVaults db teamId targetId → SameVault v db db'
  keys : ∀ v ∈ db.vaults, v.teamId = some teamId → db'.holdsKey targetId v.id = false
  membership : ∃ u u', db.users.get? targetId = some u ∧ u.teamId = some teamId ∧
    db'.users.get? targetId = some u' ∧ u'.teamId ≠ some teamId
  otherUsers : ∀ id, id ≠ targetId → db'.users.get? id = db.users.get? id

theorem mem_affectedVaults {db : Db} {v : String} :
    v ∈ affectedVaults db teamId targetId ↔
      ∃ r ∈ db.vaults, r.teamId = some teamId ∧ db.holdsKey targetId r.id = true ∧ r.id = v := by
  simp only [affectedVaults, List.mem_map, Table.mem_select, Bool.and_eq_true, decide_eq_true_eq]
  constructor
  · rintro ⟨r, ⟨hr, ht, hk⟩, rfl⟩; exact ⟨r, hr, ht, hk, rfl⟩
  · rintro ⟨r, hr, ht, hk, rfl⟩; exact ⟨r, ⟨hr, ht, hk⟩, rfl⟩

theorem loadDeparture_some {db : Db} {actor target : User} {team : Team}
    (h : loadDeparture db teamId actorId targetId = some (actor, target, team)) :
    db.users.get? targetId = some target ∧ target.teamId = some teamId ∧ db.teams.get? teamId = some team := by
  unfold loadDeparture at h
  split at h
  · next hactor htarget hteam =>
    split at h
    · next hin =>
      simp only [Option.some.injEq, Prod.mk.injEq] at h
      obtain ⟨rfl, rfl, rfl⟩ := h
      exact ⟨htarget, hin.2, hteam⟩
    · cases h
  · cases h

/-- The last writes of a departure touch sessions, teams and the row of the target. -/
theorem moveToPersonalTeam_some {target : User} (h : moveToPersonalTeam tx target personalTeamId = some tx') :
    (∀ v, SameVault v tx.current tx'.current) ∧ tx.snapshot.teams.get? personalTeamId = none ∧
      ∀ id, tx'.current.users.get? id = (tx.current.users.get? id).map fun u =>
        if u.id = target.id ∧ u ∈ tx.snapshot.users then { u with teamId := some personalTeamId, role := .owner } else u := by
  simp only [moveToPersonalTeam, Option.bind_eq_bind, Option.bind_eq_some_iff, TableOf.delete_eq_some,
    TableOf.insert_eq_some, TableOf.update_eq_some] at h
  obtain ⟨_, ⟨-, rfl⟩, _, ⟨s, c, hs, -, rfl⟩, -, rfl⟩ := h
  refine ⟨fun v => ⟨rfl, fun _ _ => Iff.rfl, fun _ _ => Iff.rfl, fun _ _ => Iff.rfl⟩, ?_, fun id => ?_⟩
  · exact Table.get?_eq_none.mpr fun r hr => Table.insert_fresh hs r hr
  · show (tx.current.users.updateWhere (fun u => decide (u.id = target.id) && decide (u ∈ tx.snapshot.users))
      (fun u => { u with teamId := some personalTeamId, role := .owner }) fun _ => rfl).get? id = _
    simp only [Table.get?_updateWhere, Bool.and_eq_true, decide_eq_true_eq]

/-- A departure that commits: its plans one after the other, then the move. -/
theorem finalizeDepartureTx_ok {plans : List (String × String)} {result : DepartureResult}
    (h : finalizeDepartureTx mode tx begun now teamId actorId targetId intent plans personalTeamId = .ok (tx', result)) :
    ∃ target team ps es tx₁, tx.snapshot.users.get? targetId = some target ∧ target.teamId = some teamId ∧
      tx.snapshot.teams.get? teamId = some team ∧
      PlansFor tx.snapshot actorId targetId (affectedVaults tx.snapshot teamId targetId) (plans.map (·.1)) ps ∧
      FinalizedInTurn actorId ps es tx tx₁ ∧ moveToPersonalTeam tx₁ target personalTeamId = some tx' := by
  unfold finalizeDepartureTx at h
  split at h; · cases h
  next actor target team hload =>
  obtain ⟨htarget, hteam, hrow⟩ := loadDeparture_some hload
  simp only [Except.bind_ok_iff, Except.mapError_ok_iff, Except.guard_ok_iff, Prod.exists] at h
  obtain ⟨⟨⟩, -, ⟨⟩, -, ⟨⟩, -, -, ⟨⟩, hplans, tx₁, rotations, hfin, h⟩ := h
  obtain ⟨ps, hps⟩ := lockDeparturePlans_ok hplans
  split at h; · cases h
  next tx₂ hmove =>
  simp only [Except.pure_ok_iff, Prod.mk.injEq] at h
  obtain ⟨rfl, -⟩ := h
  have hfound : List.Forall₂ (fun x p => tx.snapshot.plans.get? x.1 = some p) plans ps :=
    List.forall₂_map_left_iff.mp hps.found
  obtain ⟨es, hturn⟩ := finalizePlans_inTurn hfin hfound hps.nodup
  exact ⟨target, team, ps, es, tx₁, htarget, hteam, hrow, hps, hturn, hmove⟩

theorem departed_of_ok {db : Db} {plans : List (String × String)} {result : DepartureResult} (hdb : db.KeysHaveUsers)
    (h : finalizeDepartureTx mode (.still db) begun now teamId actorId targetId intent plans personalTeamId =
      .ok (tx', result)) :
    ∃ ps, (plans.map (·.1)).map db.plans.get? = ps.map some ∧ Departed db tx'.current teamId targetId ps := by
  obtain ⟨target, team, ps, es, tx₁, htarget, hteam, hrow, hps, hturn, hmove⟩ := finalizeDepartureTx_ok h
  have hall := hturn.all
  obtain ⟨hmoved, hfresh, husers⟩ := moveToPersonalTeam_some hmove
  have hid : target.id = targetId := Table.key_of_get? htarget
  have hrotated : ∀ p ∈ ps, Rotated p db tx'.current := fun p hp =>
    (hall.rotated hdb p hp (.still db _)).congr (.refl ..) (hmoved _)
  have hothers : ∀ v, v ∉ affectedVaults db teamId targetId → SameVault v db tx'.current := fun v hv =>
    (hall.others v fun hin => hv ((hps.exact v).mp hin)).trans (hmoved v)
  have hne : personalTeamId ≠ teamId := by
    rintro rfl
    rw [hall.teams.1] at hfresh
    exact nomatch hfresh.symm.trans hrow
  refine ⟨ps, ?_, hps.nodup, hps.exact, hrotated, hothers, fun r hr hteam => ?_, ?_, fun id hidne => ?_⟩
  · exact List.forall₂_eq_eq_eq ▸ List.forall₂_map_left_iff.mpr (List.forall₂_map_right_iff.mpr hps.found)
  · rw [Bool.eq_false_iff]
    intro hkey
    obtain ⟨k, hk, hkv, hku⟩ := Db.holdsKey_iff.mp hkey
    by_cases haff : r.id ∈ affectedVaults db teamId targetId
    · -- A rotated vault has no key of the excluded user.
      obtain ⟨p, hp, hpv⟩ := List.mem_map.mp ((hps.exact _).mpr haff)
      have hx := ((hrotated p hp).keysOnly k hk (hkv.trans hpv.symm)).1
      rw [hps.excluded p hp, hku] at hx
      exact hx rfl
    · have hk' := ((hothers _ haff).keys k hkv).mp hk
      exact haff (mem_affectedVaults.mpr ⟨r, hr, hteam, Db.holdsKey_iff.mpr ⟨k, hk', hkv, hku⟩, rfl⟩)
  · have hrow' : tx₁.current.users.get? targetId = some target := by rw [hall.users.2]; exact htarget
    have hmem : target ∈ tx₁.snapshot.users := by rw [hall.users.1]; exact Table.mem_of_get? htarget
    refine ⟨target, { target with teamId := some personalTeamId, role := .owner }, htarget, hteam, ?_, ?_⟩
    · rw [husers, hrow', Option.map_some, if_pos ⟨rfl, hmem⟩]
    · exact fun h => hne (Option.some.inj h)
  · rw [husers, hall.users.2]
    show (db.users.get? id).map _ = _
    cases hu : db.users.get? id with
    | none => rfl
    | some u =>
      have : u.id ≠ target.id := by rw [Table.key_of_get? hu, hid]; exact hidne
      simp [this]

/-! ## A departure that fails -/

theorem finalizePlans_stale : ∀ {plans : List (String × String)} {tx : Versions Db} {planId : String}
    {reason : StaleReason}, finalizePlans now actorId plans tx = .error (.stale planId reason) →
    planId ∈ plans.map (·.1)
  | (id, rotationId) :: plans, tx, planId, reason, h => by
    simp only [finalizePlans, Except.bind_error_iff, Except.mapError_error_iff, Prod.exists] at h
    rw [List.map_cons, List.mem_cons]
    rcases h with ⟨e, -, he⟩ | ⟨tx₁, r, -, h | ⟨tx₂, rs, -, h⟩⟩
    · cases e <;> simp [Aborted.ofFinalize] at he
      exact .inl he.1.symm
    · exact .inr (finalizePlans_stale h)
    · cases h

/-- Only a plan of the list is found stale. -/
theorem finalizeDepartureTx_stale {plans : List (String × String)} {planId : String} {reason : StaleReason}
    (h : finalizeDepartureTx mode tx begun now teamId actorId targetId intent plans personalTeamId =
      .error (.stale planId reason)) : planId ∈ plans.map (·.1) := by
  unfold finalizeDepartureTx at h
  split at h; · cases h
  simp only [Except.bind_error_iff, Except.mapError_error_iff, Except.guard_error_iff, Prod.exists, reduceCtorEq,
    and_false, exists_false, false_or] at h
  obtain ⟨-, -, -, -, -, -, -, -, -, h | ⟨tx₁, rotations, -, h⟩⟩ := h
  · exact finalizePlans_stale h
  · split at h <;> cases h

/-- **A departure is all or nothing.** Whatever the target, the team and the list of plans
are, and whichever plan fails: a departure that succeeds was given exactly one plan for each
vault of the team the target holds a key of, and has rotated them all, removed the target's
keys and their membership, and touched no other vault or user; a departure that fails leaves
the database as it was, but for the state of one plan of the list, which it may mark stale. -/
theorem departure_all_or_nothing (mode : DeploymentMode) (db : Db) (hdb : db.KeysHaveUsers) (begun now : Time)
    (teamId actorId targetId : String) (intent : Intent) (plans : List (String × String)) (personalTeamId : String) :
    (∀ db' result, finalizeDeparture mode (.still db) begun now teamId actorId targetId intent plans personalTeamId =
        (db', .ok result) →
      ∃ ps, (plans.map (·.1)).map db.plans.get? = ps.map some ∧ Departed db db' teamId targetId ps) ∧
    (∀ db' e, finalizeDeparture mode (.still db) begun now teamId actorId targetId intent plans personalTeamId =
        (db', .error e) →
      db' = db ∨ ∃ planId ∈ plans.map (·.1), ∃ reason, db' = recordStale db planId reason) := by
  unfold finalizeDeparture commitOrRollback
  refine ⟨fun db' result h => ?_, fun db' e h => ?_⟩
  · split at h
    · next tx' r hok =>
      cases h
      exact departed_of_ok hdb hok
    · cases h
  · split at h
    · cases h
    · next aborted herr =>
      cases h
      cases aborted with
      | failed e => exact .inl rfl
      | stale planId reason => exact .inr ⟨planId, finalizeDepartureTx_stale herr, reason, rfl⟩

/-- A finished plan of Ann's to remove Bob from the team. -/
def removalOfBob (id vaultId : String) (manifest : Table ManifestRecord.key) (staged : Table StagedRecord.key) :
    RotationPlan :=
  { id := id, vaultId := vaultId, initiatorUserId := "ann", reason := .memberRemoved,
    authorizationContext := "team_member_departure:administrative:team", excludedUserId := some "bob",
    expectedKeyVersion := 1, state := .ready, staleReason := none, idleExpiresAt := 10, absoluteExpiresAt := 20,
    manifest := manifest, staged := staged }

/-- A team of two with two vaults, the first with an item, and a finished plan for each. -/
def departingDb : Db :=
  { Db.empty with
    users := ⟨[⟨"ann", "Ann", "pk-ann", some "team", .owner⟩, ⟨"bob", "Bob", "pk-bob", some "team", .member⟩], by decide⟩
    teams := ⟨[⟨"team", "Team", "ann", .family, .family, .active⟩], by decide⟩
    vaults := ⟨[{ id := "v1", name := "One", type := .team, createdById := "ann", teamId := some "team" },
      { id := "v2", name := "Two", type := .team, createdById := "ann", teamId := some "team" }], by decide⟩
    vaultKeys := ⟨[⟨"k1", "v1", "ann", "old", .owner⟩, ⟨"k2", "v1", "bob", "old", .member⟩,
      ⟨"k3", "v2", "ann", "old", .owner⟩, ⟨"k4", "v2", "bob", "old", .member⟩], by decide⟩
    items := ⟨[⟨"item", "v1", .login, false, "data", "iv", "alg", 4, 2, "bob", "bob", none⟩], by decide⟩
    plans := ⟨[
      removalOfBob "p1" "v1"
        ⟨[⟨"ann", 1, .member "ann" "pk-ann" .owner⟩, ⟨"item", 4, .item "item" "v1" "data" "iv" "alg" 2 "bob"⟩],
          by decide⟩
        ⟨[⟨.member, "ann", ⟨"key", some [("encryptedVaultKey", "new")]⟩, by decide⟩,
          ⟨.item, "item", ⟨"item", some [("encryptedData", "new"), ("encryptionIv", "iv"),
            ("encryptionAlgorithm", "alg")]⟩, by decide⟩], by decide⟩,
      removalOfBob "p2" "v2" ⟨[⟨"ann", 1, .member "ann" "pk-ann" .owner⟩], by decide⟩
        ⟨[⟨.member, "ann", ⟨"key", some [("encryptedVaultKey", "new")]⟩, by decide⟩], by decide⟩], by decide⟩ }

/-- Two plans, supplied in the other order. -/
theorem departure_all_or_nothing_two_vaults :
    ∃ db' result ps, finalizeDeparture .cloud (.still departingDb) 0 0 "team" "ann" "bob" .administrative
        [("p2", "r2"), ("p1", "r1")] "personal" = (db', .ok result) ∧ Departed departingDb db' "team" "bob" ps := by
  have hok : (finalizeDeparture .cloud (.still departingDb) 0 0 "team" "ann" "bob" .administrative
      [("p2", "r2"), ("p1", "r1")] "personal").2.toBool = true := by decide +kernel
  have hdb : departingDb.KeysHaveUsers := by
    show ∀ k ∈ departingDb.vaultKeys.rows, _
    decide +kernel
  obtain ⟨hdone, -⟩ := departure_all_or_nothing .cloud departingDb hdb 0 0 "team" "ann" "bob" .administrative
    [("p2", "r2"), ("p1", "r1")] "personal"
  cases h : finalizeDeparture .cloud (.still departingDb) 0 0 "team" "ann" "bob" .administrative
      [("p2", "r2"), ("p1", "r1")] "personal" with
  | mk db' r =>
    rw [h] at hok
    cases r with
    | error e => cases hok
    | ok result =>
      obtain ⟨ps, -, hps⟩ := hdone db' result h
      exact ⟨db', result, ps, rfl, hps⟩

end Bittery
