/-
What the requests on a rotation plan do to it while it is prepared: they change its state,
its deadlines and what is staged for it. What it rotates, and from what, never changes.
-/
import Bittery.Server.Rotation.Departure
import Bittery.Server.Rotation.PlansFacts

namespace Bittery

open Lib

variable {S : RotationPlan → StagedRecord → Prop} {db db' seen : Db} {tx : Versions Db} {now : Time}
  {planId userId : String}

/-- A plan prepared from a database: its manifest is what the vault held there, and its key
version is the one of the vault. -/
structure RotationPlan.PreparedFrom (db : Db) (p : RotationPlan) : Prop where
  vault : ∃ v, db.vaults.get? p.vaultId = some v ∧ p.expectedKeyVersion = v.keyVersion
  manifest : p.manifest.rows = memberManifest db p.vaultId p.excludedUserId p.expectedKeyVersion ++
    itemManifest db p.vaultId ++ attachmentManifest db p.vaultId

/-- A plan before and after a request: a terminal state stays, none becomes completed, and
what is staged was staged before or is among the outputs `S` of the request. -/
structure RotationPlan.Evolves (S : RotationPlan → StagedRecord → Prop) (p p' : RotationPlan) : Prop where
  id : p'.id = p.id
  vaultId : p'.vaultId = p.vaultId
  excludedUserId : p'.excludedUserId = p.excludedUserId
  expectedKeyVersion : p'.expectedKeyVersion = p.expectedKeyVersion
  manifest : p'.manifest = p.manifest
  terminal : p.state.isActive = false → p'.state = p.state
  completed : p'.state = .completed → p.state = .completed
  staged : ∀ s ∈ p'.staged, s ∈ p.staged ∨ S p s

theorem RotationPlan.PreparedFrom.congr {p p' : RotationPlan} (h : p.PreparedFrom db) (hv : p'.vaultId = p.vaultId)
    (hx : p'.excludedUserId = p.excludedUserId) (hk : p'.expectedKeyVersion = p.expectedKeyVersion)
    (hm : p'.manifest = p.manifest) : p'.PreparedFrom db := by
  obtain ⟨⟨v, hget, hver⟩, hrows⟩ := h
  exact ⟨⟨v, hv ▸ hget, hk.trans hver⟩, by rw [hm, hv, hx, hk, hrows]⟩

theorem RotationPlan.Evolves.refl (p : RotationPlan) : p.Evolves S p :=
  ⟨rfl, rfl, rfl, rfl, rfl, fun _ => rfl, fun h => h, fun _ h => .inl h⟩

/-- A plan that has just been created, with an id and from a database that are `new`. -/
def RotationPlan.Created (new : String → Db → Prop) (p : RotationPlan) : Prop :=
  p.state = .preparing ∧ p.staged = .empty ∧ ∃ snapshot, new p.id snapshot ∧ p.PreparedFrom snapshot

/-- Requests on plans write the table of plans alone. Each plan in it evolved from one that
was there, or has just been created. -/
def PlansEvolve (S : RotationPlan → StagedRecord → Prop) (new : String → Db → Prop) (db db' : Db) : Prop :=
  ∃ plans : Table RotationPlan.id, db' = { db with plans := plans } ∧
    ∀ p' ∈ plans, (∃ p ∈ db.plans, p.Evolves S p') ∨ p'.Created new

theorem updatePlanRow_evolves {new : String → Db → Prop} {f : RotationPlan → RotationPlan}
    (hf : ∀ p ∈ db.plans, p.id = planId → p.Evolves S { f p with id := p.id }) :
    PlansEvolve S new db (updatePlanRow db planId f) := by
  refine ⟨_, rfl, fun p' hp' => .inl ?_⟩
  obtain ⟨p, hp, he⟩ := Table.mem_updateWhere.mp hp'
  refine ⟨p, hp, ?_⟩
  by_cases hid : decide (p.id = planId) = true
  · rw [if_pos hid] at he
    subst he
    exact hf p hp (of_decide_eq_true hid)
  · rw [if_neg hid] at he
    subst he
    exact .refl p

theorem RotationPlan.Evolves.idleUntil {p p' : RotationPlan} (h : p.Evolves S p') (deadline : Time) :
    p.Evolves S { p'.idleUntil deadline with id := p.id } :=
  ⟨rfl, h.vaultId, h.excludedUserId, h.expectedKeyVersion, h.manifest, h.terminal, h.completed, h.staged⟩

/-! ## Creating -/

theorem createPlan_evolves {new : String → Db → Prop} {input : CreateRotationPlanInput} (hnew : new planId tx.snapshot)
    (h : createPlan tx now planId input = .ok db') : PlansEvolve S new tx.current db' := by
  unfold createPlan at h
  split at h; · cases h
  next vault hvault =>
  simp only at h
  split at h
  · next hok =>
    split at h
    · next plans hins =>
      cases h
      refine ⟨plans, rfl, fun p' hp' => ?_⟩
      rcases (Table.mem_insert hins p').mp hp' with hp | rfl
      · exact .inl ⟨p', hp, .refl p'⟩
      · exact .inr ⟨rfl, rfl, tx.snapshot, hnew, ⟨vault, hvault, rfl⟩, rfl⟩
    · cases h
  · cases h

theorem createRemovalPlan_evolves {mode : DeploymentMode} {new : String → Db → Prop} {actorId vaultId targetId : String}
    (hnew : new planId tx.snapshot)
    (h : createRemovalPlan mode seen tx now planId actorId vaultId targetId = .ok db') :
    PlansEvolve S new tx.current db' := by
  unfold createRemovalPlan at h
  split at h; · cases h
  · cases h
  simp only [Except.bind_ok_iff] at h
  obtain ⟨⟨⟩, -, h⟩ := h
  split at h; · cases h
  simp only [Except.bind_ok_iff] at h
  obtain ⟨⟨⟩, -, h⟩ := h
  exact createPlan_evolves hnew h

theorem createDeparturePlan_evolves {mode : DeploymentMode} {new : String → Db → Prop}
    {teamId actorId targetId vaultId : String} {intent : Intent} (hnew : new planId tx.snapshot)
    (h : createDeparturePlan mode seen tx now planId teamId actorId targetId intent vaultId = .ok db') :
    PlansEvolve S new tx.current db' := by
  unfold createDeparturePlan at h
  split at h; · cases h
  simp only [Except.bind_ok_iff, Except.guard_ok_iff] at h
  obtain ⟨⟨⟩, -, ⟨⟩, -, -, -, h⟩ := h
  exact createPlan_evolves hnew h

/-! ## Preparing -/

theorem loadActivePlan_ok {plan : RotationPlan} (h : loadActivePlan db now planId userId = .ok plan) :
    db.plans.get? planId = some plan ∧ plan.state.isActive = true := by
  unfold loadActivePlan at h
  split at h; · cases h
  next p hp =>
  split at h; · cases h
  next hactive =>
  split at h; · cases h
  cases h
  exact ⟨(Option.filter_eq_some_iff.mp hp).1, not_not.mp hactive⟩

theorem readPreparationPage_evolves {payloadText : ManifestPayload → String} {new : String → Db → Prop}
    {kind : ManifestKind} {cursor : Option String} {limit : Nat} {page : PreparationPage}
    (h : readPreparationPage payloadText db now planId userId kind cursor limit = .ok (db', page)) :
    PlansEvolve S new db db' := by
  simp only [readPreparationPage, Except.bind_ok_iff, Except.pure_ok_iff, Prod.mk.injEq] at h
  obtain ⟨plan, -, records, -, rfl, -⟩ := h
  exact updatePlanRow_evolves fun p _ _ => (RotationPlan.Evolves.refl p).idleUntil _

theorem stageOutput_ok {plan plan' : RotationPlan} {kind : ManifestKind} {output : StagedOutput}
    (h : stageOutput plan kind output = .ok plan') (s : StagedRecord) (hs : s ∈ plan'.staged) :
    s ∈ plan.staged ∨ s.kind = kind ∧ s.entityId = output.id ∧ s.payload = output.payload := by
  unfold stageOutput at h
  split at h; · cases h
  split at h; · cases h
  split at h
  · split at h
    · next staged hins =>
      cases h
      rcases (Table.mem_insert hins s).mp hs with hs | rfl
      · exact .inl hs
      · exact .inr ⟨rfl, rfl, rfl⟩
    · split at h
      · cases h
        exact .inl hs
      · cases h
  · cases h

/-- The outputs a staging request has been given. -/
def StagedRecord.GivenBy (kind : ManifestKind) (outputs : List StagedOutput) (s : StagedRecord) : Prop :=
  s.kind = kind ∧ ∃ o ∈ outputs, s.entityId = o.id ∧ s.payload = o.payload

theorem stageOutputs_evolves {new : String → Db → Prop} {kind : ManifestKind} {outputs : List StagedOutput}
    (hS : ∀ p, db.plans.get? planId = some p → ∀ s : StagedRecord, s.GivenBy kind outputs → S p s)
    (h : stageOutputs db now planId userId kind outputs = .ok db') : PlansEvolve S new db db' := by
  simp only [stageOutputs, Except.guard_ok_iff, Except.bind_ok_iff, Except.pure_ok_iff] at h
  obtain ⟨-, plan, hplan, -, plan', hloop, rfl⟩ := h
  obtain ⟨hget, hactive⟩ := loadActivePlan_ok hplan
  -- After the outputs `done`, what is staged was staged or is one of them.
  have hstaged : ∀ s ∈ plan'.staged, s ∈ plan.staged ∨ s.GivenBy kind outputs := by
    refine @Except.foldlM_ok _ _ _ (stageOutput · kind)
      (fun done p => ∀ s ∈ p.staged, s ∈ plan.staged ∨ s.GivenBy kind done) ?_ outputs [] plan plan'
      (fun s hs => .inl hs) hloop
    intro done o p p' hp hstep s hs
    rcases stageOutput_ok hstep s hs with hs | ⟨hkind, hid, hpayload⟩
    · rcases hp s hs with hs | ⟨hkind, o', ho', hid, hpayload⟩
      · exact .inl hs
      · exact .inr ⟨hkind, o', by simp [ho'], hid, hpayload⟩
    · exact .inr ⟨hkind, o, by simp, hid, hpayload⟩
  refine updatePlanRow_evolves fun p hp hid => ?_
  have hp : p = plan := Option.some.inj ((hid ▸ Table.get?_key hp).symm.trans hget)
  subst hp
  have hS' : ∀ s ∈ plan'.staged, s ∈ p.staged ∨ S p s := fun s hs =>
    (hstaged s hs).imp (fun h => h) fun hgiven => hS p hget s hgiven
  -- The plan is active, and ready or as it was afterwards.
  refine RotationPlan.Evolves.idleUntil ?_ _
  split
  · exact ⟨rfl, rfl, rfl, rfl, rfl, fun hfalse => absurd hactive (by simp [hfalse]), (by simp), hS'⟩
  · exact ⟨rfl, rfl, rfl, rfl, rfl, fun _ => rfl, fun h => h, hS'⟩

theorem abandonPlan_evolves {new : String → Db → Prop} (h : abandonPlan db now planId userId = .ok db') :
    PlansEvolve S new db db' := by
  unfold abandonPlan at h
  split at h
  · next hany =>
    cases h
    refine updatePlanRow_evolves fun p hp hid => ?_
    obtain ⟨q, hq, hc⟩ := Table.any_eq_true.mp hany
    simp only [Bool.and_eq_true, decide_eq_true_eq] at hc
    obtain rfl : q = p := Table.eq_of_key_eq hq hp (hc.1.1.1.trans hid.symm)
    exact ⟨rfl, rfl, rfl, rfl, rfl, fun hfalse => absurd hc.1.2 (by simp [hfalse]), (by simp),
      fun _ h => .inl h⟩
  · cases h

theorem recordStale_evolves {new : String → Db → Prop} (db : Db) (planId : String) (reason : StaleReason) :
    PlansEvolve S new db (recordStale db planId reason) := by
  refine updatePlanRow_evolves fun p _ _ => ?_
  by_cases hactive : p.state.isActive = true
  · rw [if_pos hactive]
    exact ⟨rfl, rfl, rfl, rfl, rfl, fun hfalse => absurd hactive (by simp [hfalse]), (by simp),
      fun _ h => .inl h⟩
  · rw [if_neg hactive]
    exact .refl p

theorem cleanupRotationPlans_evolves {new : String → Db → Prop} (db : Db) (now : Time) (locked : List String)
    (limit : Nat) : PlansEvolve S new db (cleanupRotationPlans db now locked limit) :=
  ⟨_, rfl, fun p' hp' => .inl ⟨p', (Table.mem_deleteWhere.mp hp').1, .refl p'⟩⟩

end Bittery
