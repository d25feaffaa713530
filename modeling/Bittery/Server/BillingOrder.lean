/-
The billing columns of a team are those of the last write: an event, once its team is found,
sets its columns without regard to when it was created.

So the plan and the subscription are those of the newest subscription event if the
subscription events take effect in the order of their creation and no checkout after them; an
invoice sets the status alone.
-/
import Bittery.Server.BillingFacts

namespace Bittery

open Lib

/-! ## What has been written to a team -/

/-- A write to the plan, the status or the subscription id of a team. -/
inductive TeamWrite
  | subscription (event : StripeEvent) (kind : SubscriptionUpdateKind)
  | invoice (billingStatus : BillingStatus)
  /-- One that is begun, or has come to its end. -/
  | checkout

def BillingFact.write (teamId : String) : BillingFact → Option TeamWrite
  | .applied event (some (id, kind)) =>
    if id = teamId then
      match kind with
      | .checkoutSessionCompleted => some .checkout
      | .subscription kind => some (.subscription event kind)
      | .invoice billingStatus => some (.invoice billingStatus)
    else none
  | .checkout id => if id = teamId then some .checkout else none
  | _ => none

namespace TeamWrite

/-- The subscription event that no checkout has been written after, of writes of which the
latest is the first. -/
def latestSubscription : List TeamWrite → Option (StripeEvent × SubscriptionUpdateKind)
  | .subscription event kind :: _ => some (event, kind)
  | .invoice _ :: writes => latestSubscription writes
  | .checkout :: _ | [] => none

/-- The status that the last write has set, if it was an event that sets one. -/
def latestStatus : List TeamWrite → Option BillingStatus
  | .subscription event kind :: _ => some (event.subscriptionStatus kind)
  | .invoice billingStatus :: _ => some billingStatus
  | .checkout :: _ | [] => none

/-- The subscription events take effect in the order of their creation, and no checkout does
after one of them. -/
def InOrder (created : String → Nat) : List TeamWrite → Prop
  | [] => True
  | .subscription event _ :: writes =>
    (∀ e k, .subscription e k ∈ writes → created e.id ≤ created event.id) ∧ InOrder created writes
  | .invoice _ :: writes => InOrder created writes
  | .checkout :: writes => (∀ e k, .subscription e k ∉ writes) ∧ InOrder created writes

/-- In order, the latest subscription event is the newest. -/
theorem latestSubscription_eq {created : String → Nat} {event : StripeEvent} {kind : SubscriptionUpdateKind} :
    ∀ {writes : List TeamWrite}, InOrder created writes → .subscription event kind ∈ writes →
      (∀ e k, .subscription e k ∈ writes → (e, k) = (event, kind) ∨ created e.id < created event.id) →
      latestSubscription writes = some (event, kind)
  | .subscription e k :: writes, horder, hmem, hnewest => by
    rcases hnewest e k (by simp) with heq | hlt
    · exact congrArg some heq
    · rcases List.mem_cons.1 hmem with heq | hmem
      · cases heq
        exact absurd hlt (Nat.lt_irrefl _)
      · have := horder.1 event kind hmem
        omega
  | .invoice _ :: writes, horder, hmem, hnewest => by
    have hmem' : .subscription event kind ∈ writes := by simpa using hmem
    show latestSubscription writes = _
    exact latestSubscription_eq horder hmem' fun e k he => hnewest e k (by simp [he])
  | .checkout :: writes, horder, hmem, _ => by
    have hmem' : .subscription event kind ∈ writes := by simpa using hmem
    exact absurd hmem' (horder.1 event kind)
  | [], _, hmem, _ => nomatch hmem

end TeamWrite

namespace BillingState

variable {config : StripeConfig} {s t : BillingState}

/-- The writes to a team, the latest first. -/
def writes (s : BillingState) (teamId : String) : List TeamWrite := s.history.filterMap (·.write teamId)

/-- The columns of a team are those of its last writes. -/
structure Shows (config : StripeConfig) (r : BillingTeam) (writes : List TeamWrite) : Prop where
  plan {event kind plan} : TeamWrite.latestSubscription writes = some (event, kind) →
    event.subscriptionPlan config = some plan → r.billingPlan = plan
  subscription {event kind} : TeamWrite.latestSubscription writes = some (event, kind) →
    r.stripeSubscriptionId = event.subscriptionId kind
  status {billingStatus} : TeamWrite.latestStatus writes = some billingStatus → r.billingStatus = billingStatus

/-- Where no write says anything of the columns, they may be any. -/
theorem shows_of_unsaid {r : BillingTeam} {writes : List TeamWrite} (hs : TeamWrite.latestSubscription writes = none)
    (ht : TeamWrite.latestStatus writes = none) : Shows config r writes :=
  ⟨by simp [hs], by simp [hs], by simp [ht]⟩

/-- **The last write wins**, for every team. -/
def LastWriteWins (config : StripeConfig) (s : BillingState) : Prop := ∀ r ∈ s.teams, Shows config r (s.writes r.id)

theorem BillingTeams.mem_update {teams teams' : BillingTeams} {id : String} {f : BillingTeam → BillingTeam}
    {hf : ∀ r, (f r).id = r.id} (h : teams.update id f hf = some teams') {r : BillingTeam} (hr : r ∈ teams') :
    (r ∈ teams ∧ r.id ≠ id) ∨ ∃ r0, teams.get? id = some r0 ∧ r = f r0 := by
  simp only [BillingTeams.update] at h
  split at h
  · rename_i hnone
    cases h
    exact .inl ⟨hr, Table.get?_eq_none.1 hnone r hr⟩
  · rename_i r0 hr0
    split at h
    · cases h
    · cases h
      obtain ⟨r1, hr1, heq⟩ := Table.mem_updateWhere.1 hr
      by_cases hid : r1.id = id
      · rw [if_pos (by simpa using hid)] at heq
        have : r1 = r0 := Table.eq_of_key_eq hr1 (Table.mem_of_get? hr0) (hid.trans (Table.key_of_get? hr0).symm)
        exact .inr ⟨r0, hr0, this ▸ heq.symm⟩
      · rw [if_neg (by simpa using hid)] at heq
        exact .inl ⟨heq ▸ hr1, heq ▸ hid⟩

/-- Of a step that writes none of the three columns. -/
theorem LastWriteWins.of_frame (h : LastWriteWins config s) (hwrites : ∀ id, t.writes id = s.writes id)
    (hteams : ∀ r ∈ t.teams, ∃ r0 ∈ s.teams, r0.id = r.id ∧ r0.billingPlan = r.billingPlan ∧
      r0.billingStatus = r.billingStatus ∧ r0.stripeSubscriptionId = r.stripeSubscriptionId) : LastWriteWins config t := by
  intro r hr
  obtain ⟨r0, hr0, hid, hplan, hstatus, hsubscription⟩ := hteams r hr
  have hshows := h r0 hr0
  rw [hwrites, ← hid]
  exact ⟨fun hl hp => hplan ▸ hshows.plan hl hp, fun hl => hsubscription ▸ hshows.subscription hl,
    fun hl => hstatus ▸ hshows.status hl⟩

/-- The row that an event writes shows the write. -/
theorem shows_write {event : StripeEvent} {kind : StripeEventKind} {read : BillingPlan} {r : BillingTeam}
    (h : Shows config r (s.writes r.id)) :
    Shows config (event.write config kind read r)
      (({ s with history := .applied event (some (r.id, kind)) :: s.history } : BillingState).writes r.id) := by
  cases kind with
  | checkoutSessionCompleted =>
    simp only [writes, List.filterMap_cons, BillingFact.write, if_true]
    exact shows_of_unsaid rfl rfl
  | subscription kind =>
    simp only [writes, List.filterMap_cons, BillingFact.write, if_true]
    refine ⟨fun hl hp => ?_, fun hl => ?_, fun hl => ?_⟩
    · cases hl
      simp [StripeEvent.write, StripeEvent.applySubscriptionUpdate, hp]
    · cases hl
      rfl
    · cases hl
      rfl
  | invoice billingStatus =>
    simp only [writes, List.filterMap_cons, BillingFact.write, if_true]
    exact ⟨fun hl hp => h.plan hl hp, fun hl => h.subscription hl, fun hl => Option.some.inj hl⟩

/-! ## Every step -/

theorem write_eq_none {f : BillingFact} {id : String} (h : f.teamId ≠ some id) : f.write id = none := by
  cases f with
  | applied event written =>
    cases written with
    | none => rfl
    | some written => exact if_neg fun hid => h (by simpa [BillingFact.teamId] using hid)
  | checkout teamId => exact if_neg fun hid => h (by simpa [BillingFact.teamId] using hid)
  | duplicate event => rfl
  | lost event => rfl

theorem writes_cons {f : BillingFact} {id : String} (h : t.history = f :: s.history) :
    t.writes id = (f.write id).toList ++ s.writes id := by
  rw [writes, h, List.filterMap_cons]
  cases f.write id <;> rfl

/-- A step that writes nothing to a team: the teams are as before, and what is new in the
history is of no team. -/
structure Quiet (s t : BillingState) : Prop where
  teams : t.teams = s.teams
  writes (id : String) : t.writes id = s.writes id

theorem Quiet.of_cons {f : BillingFact} (hteams : t.teams = s.teams) (hf : f.teamId = none)
    (hhistory : t.history = f :: s.history) : Quiet s t :=
  ⟨hteams, fun id => by rw [writes_cons hhistory, write_eq_none (by simp [hf])]; rfl⟩

theorem Quiet.of_history (hteams : t.teams = s.teams) (hhistory : t.history = s.history) : Quiet s t :=
  ⟨hteams, fun id => by rw [BillingState.writes, hhistory, BillingState.writes]⟩

theorem Quiet.lastWriteWins (hq : Quiet s t) (h : LastWriteWins config s) : LastWriteWins config t :=
  fun r hr => hq.writes r.id ▸ h r (hq.teams ▸ hr)

theorem search_quiet {event : StripeEvent} {kind : StripeEventKind} (keys : List TeamKey) :
    Quiet s (s.search event kind keys) := by
  cases keys with
  | nil => exact .of_cons rfl rfl rfl
  | cons key rest => exact .of_history rfl rfl

theorem found_quiet {event : StripeEvent} {kind : StripeEventKind} (r : BillingTeam) :
    Quiet s (s.found event kind r) := by
  simp only [found]
  split
  · split
    · exact .of_history rfl rfl
    · exact .of_cons rfl rfl rfl
  · exact .of_history rfl rfl

theorem deliver_quiet (event : StripeEvent) : Quiet s (s.deliver event) := by
  simp only [deliver]
  split
  · exact .of_cons rfl rfl rfl
  · split
    · exact .of_cons rfl rfl rfl
    · next kind _ =>
      have hquiet : Quiet { s with stripeEventLog := event.id :: s.stripeEventLog } _ :=
        @search_quiet _ event kind event.keys
      exact ⟨hquiet.teams, hquiet.writes⟩

/-- The writes to another team are as before. -/
theorem writes_other {f : BillingFact} {id : String} (h : t.history = f :: s.history) (hf : f.teamId ≠ some id) :
    t.writes id = s.writes id := by
  rw [writes_cons h, write_eq_none hf]
  rfl

theorem LastWriteWins.resume (h : LastWriteWins config s) (d : Delivery) : LastWriteWins config (s.resume config d) := by
  simp only [BillingState.resume]
  split
  · split
    · exact (found_quiet _).lastWriteWins h
    · exact (search_quiet _).lastWriteWins h
  · rename_i teamId billingPlan _
    split
    · have hquiet : Quiet s { s with history := .lost d.event :: s.history } := .of_cons rfl rfl rfl
      exact hquiet.lastWriteWins h
    · rename_i teams hupdate
      intro r hr
      rcases BillingTeams.mem_update hupdate hr with ⟨hr, hid⟩ | ⟨r0, hr0, rfl⟩
      · rw [writes_other rfl]
        · exact h r hr
        · cases hget : s.teams.get? teamId with
          | none => simp [BillingFact.teamId]
          | some r0 =>
            have hkey := Table.key_of_get? hget
            simpa [BillingFact.teamId, hkey] using Ne.symm hid
      · rw [hr0, d.event.write_id]
        exact shows_write (h r0 (Table.mem_of_get? hr0))

theorem LastWriteWins.resumeCheckout (h : LastWriteWins config s) (c : Checkout) (answer : Option String) :
    LastWriteWins config (s.resumeCheckout c answer) := by
  simp only [BillingState.resumeCheckout]
  split
  · split
    · exact h
    · exact (Quiet.of_history rfl rfl).lastWriteWins h
  · split
    · exact h
    · rename_i teams hupdate
      refine h.of_frame (fun id => rfl) fun r hr => ?_
      rcases BillingTeams.mem_update hupdate hr with ⟨hr, -⟩ | ⟨r0, hr0, rfl⟩
      · exact ⟨r, hr, rfl, rfl, rfl, rfl⟩
      · exact ⟨r0, Table.mem_of_get? hr0, rfl, rfl, rfl, rfl⟩
  · split
    · exact (Quiet.of_history rfl rfl).lastWriteWins h
    · exact h
  · split
    · exact h
    · rename_i teams hupdate
      intro r hr
      rcases BillingTeams.mem_update hupdate hr with ⟨hr, hid⟩ | ⟨r0, hr0, rfl⟩
      · have hwrites : (if (s.teams.get? c.teamId).isSome then
            BillingFact.checkout c.teamId :: s.history else s.history).filterMap (·.write r.id) =
            s.writes r.id := by
          split
          · exact writes_other (t := { s with history := .checkout c.teamId :: s.history }) rfl
              (by simpa [BillingFact.teamId] using Ne.symm hid)
          · rfl
        show Shows config r (List.filterMap _ _)
        rw [hwrites]
        exact h r hr
      · -- After a checkout nothing is said of the three columns.
        have hkey := Table.key_of_get? hr0
        simp only [writes, hr0, Option.isSome_some, if_true, List.filterMap_cons, BillingFact.write, hkey]
        exact shows_of_unsaid rfl rfl

theorem LastWriteWins.step (h : LastWriteWins config s) {label : BillingLabel}
    (hs : s.step config label = some t) : LastWriteWins config t := by
  cases label with
  | createTeam team =>
    simp only [BillingState.step] at hs
    split at hs
    · rename_i hfresh
      obtain ⟨teams, hinsert, rfl⟩ := Option.map_eq_some_iff.1 hs
      intro r hr
      rcases (Table.mem_insert hinsert r).1 hr with hr | rfl
      · exact h r hr
      · have hnone : s.writes r.id = [] := by
          refine List.filterMap_eq_nil_iff.2 fun f hf => write_eq_none ?_
          simpa using List.all_eq_true.1 hfresh.2.2 f hf
        show Shows config r (s.writes r.id)
        rw [hnone]
        exact shows_of_unsaid rfl rfl
    · cases hs
  | deleteTeam id =>
    cases hs
    exact fun r hr => h r (Table.mem_deleteWhere.1 hr).1
  | deliver event =>
    cases hs
    exact (deliver_quiet event).lastWriteWins h
  | refuse event =>
    cases hs
    exact h
  | proceed i =>
    obtain ⟨d, hd, rfl⟩ := Option.map_eq_some_iff.1 hs
    exact LastWriteWins.resume (s := { s with deliveries := s.deliveries.eraseIdx i }) h d
  | fail i =>
    obtain ⟨d, hd, rfl⟩ := Option.map_eq_some_iff.1 hs
    have hquiet : Quiet s { s with deliveries := s.deliveries.eraseIdx i, history := .lost d.event :: s.history } :=
      .of_cons rfl rfl rfl
    exact hquiet.lastWriteWins h
  | startCheckout actor plan =>
    simp only [BillingState.step] at hs
    split at hs
    · cases hs
      exact h
    · cases hs
      exact (Quiet.of_history rfl rfl).lastWriteWins h
  | resumeCheckout i answer =>
    obtain ⟨c, hc, rfl⟩ := Option.map_eq_some_iff.1 hs
    exact LastWriteWins.resumeCheckout (s := { s with checkouts := s.checkouts.eraseIdx i }) h c answer
  | abandonCheckout i =>
    simp only [BillingState.step] at hs
    split at hs
    · cases hs
      exact (Quiet.of_history rfl rfl).lastWriteWins h
    · cases hs
  | crash =>
    cases hs
    refine h.of_frame (fun id => ?_) fun r hr => ⟨r, hr, rfl, rfl, rfl, rfl⟩
    have hnone : (s.deliveries.map fun d => BillingFact.lost d.event).filterMap (·.write id) = [] := by
      simp [BillingFact.write]
    rw [writes, List.filterMap_append, hnone, List.nil_append, writes]

theorem lastWriteWins (hs : (billing config).Reachable s) : LastWriteWins config s := by
  refine System.Reachable.invariant (LastWriteWins config) (fun s hs => ?_) (fun _ _ _ _ h hs => h.step hs) hs
  subst hs
  exact fun r hr => absurd hr (Table.not_mem_empty r)

/-! ## The newest subscription -/

/-- A subscription event that has taken effect on the team, and is newer than every other. -/
def IsNewest (created : String → Nat) (s : BillingState) (teamId : String) (event : StripeEvent)
    (kind : SubscriptionUpdateKind) : Prop :=
  .subscription event kind ∈ s.writes teamId ∧
    ∀ e k, .subscription e k ∈ s.writes teamId → (e, k) = (event, kind) ∨ created e.id < created event.id

/-- The team has the plan, the status and the subscription of the event. -/
def HasStateOf (config : StripeConfig) (r : BillingTeam) (event : StripeEvent) (kind : SubscriptionUpdateKind) : Prop :=
  (∀ plan, event.subscriptionPlan config = some plan → r.billingPlan = plan) ∧
    r.stripeSubscriptionId = event.subscriptionId kind ∧ r.billingStatus = event.subscriptionStatus kind

def prices : StripeConfig := ⟨some "price_personal", some "price_family", some "price_team"⟩

def deletedSubscription (id : String) : StripeEvent :=
  { id, kind := "customer.subscription.deleted"
    object := .object [("id", .string "sub"), ("customer", .string "cus"),
      ("metadata", .object [("teamId", .string "team"), ("plan", .string "team")])] }

def failedInvoice (id : String) : StripeEvent :=
  { id, kind := "invoice.payment_failed", object := .object [("customer", .string "cus")] }

/-- A delivery that finds its team with its first SELECT and writes it. -/
def delivered (event : StripeEvent) : List BillingLabel := [.deliver event, .proceed 0, .proceed 0]

/-- When the events of the runs were created. -/
def createdAt (id : String) : Nat := if id = "evt_1" then 1 else 2

/-- What is left of the team after its subscription has been active. -/
def activeTeam : BillingTeam :=
  { id := "team", billingPlan := .team, billingStatus := .active, stripeCustomerId := some "cus"
    stripeSubscriptionId := some "sub" }

def canceledTeam : BillingTeam :=
  { activeTeam with billingStatus := .canceled, stripeSubscriptionId := none }

/-- A subscription is active, and then deleted. -/
def inOrderRun : List BillingLabel :=
  .createTeam { id := "team" } :: delivered (activeSubscription "evt_1") ++ delivered (deletedSubscription "evt_2")

/-- The deletion is delivered before the older event. -/
def lateRun : List BillingLabel :=
  .createTeam { id := "team" } :: delivered (deletedSubscription "evt_2") ++ delivered (activeSubscription "evt_1")

/-- The payment of an active subscription fails. -/
def invoiceRun : List BillingLabel :=
  .createTeam { id := "team" } :: delivered (activeSubscription "evt_1") ++ delivered (failedInvoice "evt_2")

/-- A checkout for another plan is begun while a subscription is active. -/
def checkoutRun : List BillingLabel :=
  .createTeam { id := "team" } :: delivered (activeSubscription "evt_1") ++
    [.startCheckout ⟨some "team", .owner⟩ (some .family), .resumeCheckout 0 (some "url"), .resumeCheckout 0 none]

/-- A state that a run ends in, by its one team and what has been written to it. -/
theorem exists_of_run {labels : List BillingLabel} {r : BillingTeam} {writes : List TeamWrite}
    (h : ((billing config).run {} labels).map (fun s => (s.teams.rows, s.writes r.id)) = some ([r], writes)) :
    ∃ s, (billing config).Reachable s ∧ r ∈ s.teams ∧ s.writes r.id = writes := by
  obtain ⟨s, hs, hfacts⟩ := Option.map_eq_some_iff.1 h
  simp only [Prod.mk.injEq] at hfacts
  exact ⟨s, System.Reachable.run (.init rfl) hs, by rw [← Table.mem_rows, hfacts.1]; exact List.mem_singleton.2 rfl,
    hfacts.2⟩

end BillingState

end Bittery
