/-
Every Stripe event takes effect once, unless a delivery of it is cut off between its row of
the event log and its UPDATE.

The row of the log is written first and is a transaction of its own, so each event has one
delivery that goes on from it: that delivery is still at work, has come to its end, or is
lost. Once it is lost, every redelivery finds the row and answers that the event is known.
-/
import Bittery.Server.Billing

namespace Bittery

open Lib

/-! ## What a step does to the deliveries -/

namespace BillingFact

def applies (id : String) : BillingFact → Bool
  | .applied event _ => event.id = id
  | _ => false

def loses (id : String) : BillingFact → Bool
  | .lost event => event.id = id
  | _ => false

/-- A delivery of the event that the server has answered as received. -/
def accepts (id : String) : BillingFact → Bool
  | .applied event _ | .duplicate event => event.id = id
  | _ => false

end BillingFact

namespace BillingState

variable {config : StripeConfig} {s t : BillingState} {event : StripeEvent} {kind : StripeEventKind}

/-- Where `t` is after a delivery of `event` has gone on in `s`: it is at work still, or it
has come to its end, or it is lost. -/
inductive GoesOn (event : StripeEvent) (s t : BillingState) : Prop
  | working (d : Delivery) (hd : d.event = event) (hdeliveries : t.deliveries = s.deliveries ++ [d])
      (hhistory : t.history = s.history)
  | ended (written : Option (String × StripeEventKind)) (hdeliveries : t.deliveries = s.deliveries)
      (hhistory : t.history = .applied event written :: s.history)
  | lost (hdeliveries : t.deliveries = s.deliveries) (hhistory : t.history = .lost event :: s.history)

theorem search_goesOn (keys : List TeamKey) : GoesOn event s (s.search event kind keys) := by
  cases keys with
  | nil => exact .ended none rfl rfl
  | cons key rest => exact .working ⟨event, kind, .select key rest⟩ rfl rfl rfl

theorem found_goesOn (r : BillingTeam) : GoesOn event s (s.found event kind r) := by
  simp only [found]
  split
  · split
    · exact .working ⟨event, _, .update r.id r.billingPlan⟩ rfl rfl rfl
    · exact .ended none rfl rfl
  · exact .working ⟨event, _, .update r.id r.billingPlan⟩ rfl rfl rfl

theorem resume_goesOn (d : Delivery) : GoesOn d.event s (s.resume config d) := by
  simp only [resume]
  split
  · split
    · exact found_goesOn _
    · exact search_goesOn _
  · split
    · exact .lost rfl rfl
    · exact .ended _ rfl rfl

@[simp] theorem search_log (keys : List TeamKey) : (s.search event kind keys).stripeEventLog = s.stripeEventLog := by
  cases keys <;> rfl

theorem found_log (r : BillingTeam) : (s.found event kind r).stripeEventLog = s.stripeEventLog := by
  simp only [found]
  split
  · split <;> rfl
  · rfl

theorem resume_log (d : Delivery) : (s.resume config d).stripeEventLog = s.stripeEventLog := by
  simp only [resume]
  split
  · split
    · exact found_log _
    · exact search_log _
  · split <;> rfl

/-- A first delivery writes the row of the log and goes on. -/
theorem deliver_goesOn (h : event.id ∉ s.stripeEventLog) :
    GoesOn event s (s.deliver event) ∧ (s.deliver event).stripeEventLog = event.id :: s.stripeEventLog := by
  simp only [deliver, if_neg h]
  cases event.handler with
  | none => exact ⟨.ended none rfl rfl, rfl⟩
  | some kind =>
    refine ⟨?_, search_log _⟩
    cases event.keys with
    | nil => exact .ended none rfl rfl
    | cons key rest => exact .working ⟨event, kind, .select key rest⟩ rfl rfl rfl

/-- **A duplicate delivery changes nothing**, but that it is answered. -/
theorem deliver_duplicate (h : event.id ∈ s.stripeEventLog) :
    s.deliver event = { s with history := .duplicate event :: s.history } := by
  simp only [deliver, if_pos h]

/-- A checkout changes neither the deliveries nor the log, and records no fate of an event. -/
theorem resumeCheckout_frame (c : Checkout) (answer : Option String) :
    (s.resumeCheckout c answer).deliveries = s.deliveries ∧
      (s.resumeCheckout c answer).stripeEventLog = s.stripeEventLog ∧
      ((s.resumeCheckout c answer).history = s.history ∨
        (s.resumeCheckout c answer).history = .checkout c.teamId :: s.history) := by
  simp only [resumeCheckout]
  split
  · split <;> simp
  · split <;> simp
  · split <;> simp
  · split
    · simp
    · by_cases hteam : (s.teams.get? c.teamId).isSome <;> simp [hteam]

/-! ## The fate of an event -/

/-- How many deliveries of the event have gone on from the row of the log. -/
def fates (s : BillingState) (id : String) : Nat :=
  s.history.countP (·.applies id) + s.history.countP (·.loses id) + s.deliveries.countP (·.event.id = id)

theorem GoesOn.fates (h : GoesOn event s t) (id : String) :
    t.fates id = s.fates id + if event.id = id then 1 else 0 := by
  cases h with
  | working d hd hdeliveries hhistory =>
    subst hd
    simp only [BillingState.fates, hdeliveries, hhistory, List.countP_append, List.countP_singleton, decide_eq_true_eq]
    omega
  | ended teamId hdeliveries hhistory =>
    simp only [BillingState.fates, hdeliveries, hhistory, List.countP_cons, BillingFact.applies, BillingFact.loses,
      decide_eq_true_eq, Bool.false_eq_true, if_false]
    omega
  | lost hdeliveries hhistory =>
    simp only [BillingState.fates, hdeliveries, hhistory, List.countP_cons, BillingFact.applies, BillingFact.loses,
      decide_eq_true_eq, Bool.false_eq_true, if_false]
    omega

theorem GoesOn.accepts (h : GoesOn event s t) {id : String} (hf : ∃ f ∈ t.history, f.accepts id = true) :
    (∃ f ∈ s.history, f.accepts id = true) ∨ event.id = id := by
  obtain ⟨f, hf, ha⟩ := hf
  cases h with
  | working d _ _ hhistory => exact .inl ⟨f, hhistory ▸ hf, ha⟩
  | ended teamId _ hhistory =>
    rw [hhistory] at hf
    rcases List.mem_cons.1 hf with rfl | hf
    · exact .inr (by simpa [BillingFact.accepts] using ha)
    · exact .inl ⟨f, hf, ha⟩
  | lost _ hhistory =>
    rw [hhistory] at hf
    rcases List.mem_cons.1 hf with rfl | hf
    · simp [BillingFact.accepts] at ha
    · exact .inl ⟨f, hf, ha⟩

/-- **Each event has one fate**, and none before its row is in the log. -/
structure OneFate (s : BillingState) : Prop where
  fates (id : String) : s.fates id = if id ∈ s.stripeEventLog then 1 else 0
  accepted (id : String) : (∃ f ∈ s.history, f.accepts id = true) → id ∈ s.stripeEventLog

/-- The delivery that goes on is out of the list. -/
theorem fates_erase {i : Nat} {d : Delivery} (hd : s.deliveries[i]? = some d) (id : String) :
    s.fates id = ({ s with deliveries := s.deliveries.eraseIdx i } : BillingState).fates id +
      if d.event.id = id then 1 else 0 := by
  obtain ⟨hi, hget⟩ := List.getElem?_eq_some_iff.1 hd
  have hperm := (List.getElem_cons_eraseIdx_perm hi).countP_eq (·.event.id = id)
  rw [hget, List.countP_cons] at hperm
  simp only [fates, ← hperm, decide_eq_true_eq]
  omega

theorem OneFate.go_on (h : OneFate s) {i : Nat} {d : Delivery} (hd : s.deliveries[i]? = some d)
    (hgo : GoesOn d.event { s with deliveries := s.deliveries.eraseIdx i } t)
    (hlog : t.stripeEventLog = s.stripeEventLog) : OneFate t := by
  have hfates (id : String) : t.fates id = s.fates id := by rw [hgo.fates id, fates_erase hd id]
  refine ⟨fun id => by rw [hfates id, h.fates id, hlog], fun id hf => ?_⟩
  rw [hlog]
  rcases hgo.accepts hf with hf | hid
  · exact h.accepted id hf
  · -- The delivery was at work, so its event has a fate.
    subst hid
    have hone := h.fates d.event.id
    rw [fates_erase hd, if_pos rfl] at hone
    by_contra hnot
    rw [if_neg hnot] at hone
    omega

theorem OneFate.of_frame (h : OneFate s) (hdeliveries : t.deliveries = s.deliveries)
    (hlog : t.stripeEventLog = s.stripeEventLog)
    (hhistory : t.history = s.history ∨ ∃ teamId, t.history = .checkout teamId :: s.history) : OneFate t := by
  rcases hhistory with hhistory | ⟨teamId, hhistory⟩
  · exact ⟨fun id => by simpa [BillingState.fates, hdeliveries, hlog, hhistory] using h.fates id,
      fun id hf => hlog ▸ h.accepted id (hhistory ▸ hf)⟩
  · refine ⟨fun id => ?_, fun id hf => ?_⟩
    · simpa [BillingState.fates, hdeliveries, hlog, hhistory, BillingFact.applies, BillingFact.loses] using h.fates id
    · obtain ⟨f, hf, ha⟩ := hf
      rw [hhistory] at hf
      rcases List.mem_cons.1 hf with rfl | hf
      · simp [BillingFact.accepts] at ha
      · exact hlog ▸ h.accepted id ⟨f, hf, ha⟩

theorem OneFate.deliver (h : OneFate s) (event : StripeEvent) : OneFate (s.deliver event) := by
  by_cases hknown : event.id ∈ s.stripeEventLog
  · rw [deliver_duplicate hknown]
    refine ⟨fun id => ?_, fun id hf => ?_⟩
    · simpa [BillingState.fates, BillingFact.applies, BillingFact.loses] using h.fates id
    · obtain ⟨f, hf, ha⟩ := hf
      rcases List.mem_cons.1 hf with rfl | hf
      · exact (of_decide_eq_true ha : event.id = id) ▸ hknown
      · exact h.accepted id ⟨f, hf, ha⟩
  · obtain ⟨hgo, hlog⟩ := deliver_goesOn hknown
    refine ⟨fun id => ?_, fun id hf => ?_⟩
    · rw [hgo.fates id, h.fates id, hlog]
      by_cases hid : event.id = id
      · subst hid
        simp [hknown]
      · simp [hid, Ne.symm hid]
    · rw [hlog]
      rcases hgo.accepts hf with hf | rfl
      · exact List.mem_cons_of_mem _ (h.accepted id hf)
      · exact List.mem_cons_self

/-- A crash loses every delivery at work. -/
theorem OneFate.crash (h : OneFate s) :
    OneFate { s with deliveries := [], checkouts := [], history := s.deliveries.map (.lost ·.event) ++ s.history } := by
  refine ⟨fun id => ?_, fun id hf => ?_⟩
  · have happlies : (s.deliveries.map fun d => BillingFact.lost d.event).countP (·.applies id) = 0 := by
      simp [List.countP_eq_zero, BillingFact.applies]
    have hloses : (s.deliveries.map fun d => BillingFact.lost d.event).countP (·.loses id) =
        s.deliveries.countP (·.event.id = id) := by
      rw [List.countP_map]
      rfl
    have hone := h.fates id
    simp only [BillingState.fates, List.countP_append, happlies, hloses, List.countP_nil] at hone ⊢
    omega
  · obtain ⟨f, hf, ha⟩ := hf
    rcases List.mem_append.1 hf with hf | hf
    · obtain ⟨d, -, rfl⟩ := List.mem_map.1 hf
      simp [BillingFact.accepts] at ha
    · exact h.accepted id ⟨f, hf, ha⟩

theorem OneFate.step (h : OneFate s) {label : BillingLabel} (hs : s.step config label = some t) : OneFate t := by
  cases label with
  | createTeam team =>
    simp only [BillingState.step] at hs
    split at hs
    · obtain ⟨teams, -, rfl⟩ := Option.map_eq_some_iff.1 hs
      exact h.of_frame rfl rfl (.inl rfl)
    · exact nomatch hs
  | deleteTeam id =>
    cases hs
    exact h.of_frame rfl rfl (.inl rfl)
  | deliver event =>
    cases hs
    exact h.deliver event
  | refuse event =>
    cases hs
    exact h
  | proceed i =>
    obtain ⟨d, hd, rfl⟩ := Option.map_eq_some_iff.1 hs
    exact h.go_on hd (resume_goesOn d) (resume_log d)
  | fail i =>
    obtain ⟨d, hd, rfl⟩ := Option.map_eq_some_iff.1 hs
    exact h.go_on hd (.lost rfl rfl) rfl
  | startCheckout actor plan =>
    simp only [BillingState.step] at hs
    split at hs
    · cases hs
      exact h
    · cases hs
      exact h.of_frame rfl rfl (.inl rfl)
  | resumeCheckout i answer =>
    obtain ⟨c, hc, rfl⟩ := Option.map_eq_some_iff.1 hs
    obtain ⟨hdeliveries, hlog, hhistory⟩ :=
      resumeCheckout_frame (s := { s with checkouts := s.checkouts.eraseIdx i }) c answer
    exact h.of_frame hdeliveries hlog (hhistory.imp_right fun hh => ⟨_, hh⟩)
  | abandonCheckout i =>
    simp only [BillingState.step] at hs
    split at hs
    · cases hs
      exact h.of_frame rfl rfl (.inl rfl)
    · exact nomatch hs
  | crash =>
    cases hs
    exact h.crash

theorem oneFate (hs : (billing config).Reachable s) : OneFate s := by
  refine System.Reachable.invariant OneFate (fun s hs => ?_) (fun _ _ _ _ h hs => h.step hs) hs
  subst hs
  exact ⟨fun id => by simp [BillingState.fates], fun id hf => by simp at hf⟩

/-! ## Events take effect once -/

/-- An event that the server has answered as received has been applied once. -/
def TakenOnce (s : BillingState) (id : String) : Prop :=
  (∃ f ∈ s.history, f.accepts id = true) → s.history.countP (·.applies id) = 1

/-- A delivery of the event is at work. -/
def AtWork (s : BillingState) (id : String) : Prop := ∃ d ∈ s.deliveries, d.event.id = id

theorem OneFate.takenOnce_iff (h : OneFate s) {id : String} (hf : ∃ f ∈ s.history, f.accepts id = true) :
    s.history.countP (·.applies id) = 1 ↔ (∀ f ∈ s.history, f.loses id = false) ∧ ¬ s.AtWork id := by
  have hone := h.fates id
  rw [if_pos (h.accepted id hf), BillingState.fates] at hone
  have hlost : s.history.countP (·.loses id) = 0 ↔ ∀ f ∈ s.history, f.loses id = false := by
    simp [List.countP_eq_zero]
  have hwork : s.deliveries.countP (·.event.id = id) = 0 ↔ ¬ s.AtWork id := by
    simp [List.countP_eq_zero, AtWork]
  rw [← hlost, ← hwork]
  omega

/-- No delivery is cut off between its row of the log and its UPDATE, and none of an event
comes in while another is at work. -/
def Completes (config : StripeConfig) (s : BillingState) : BillingLabel → Prop
  | .deliver event => ∀ d ∈ s.deliveries, d.event.id ≠ event.id
  | .proceed i => ∀ d ∈ (s.deliveries[i]?).toList, s.UpdateHolds config d
  | .fail _ => False
  | .crash => s.deliveries = []
  | _ => True

instance (config : StripeConfig) (s : BillingState) (label : BillingLabel) : Decidable (s.Completes config label) := by
  cases label <;> unfold Completes <;> infer_instance

/-- What the condition keeps: nothing is lost, and no event at work has been answered. -/
structure Undisturbed (s : BillingState) : Prop where
  noLoss : ∀ f ∈ s.history, ∀ id, f.loses id = false
  unanswered : ∀ d ∈ s.deliveries, ¬ ∃ f ∈ s.history, f.accepts d.event.id = true

theorem resume_holds {d : Delivery} (h : s.UpdateHolds config d) (f : BillingFact)
    (hf : f ∈ (s.resume config d).history) : f ∈ s.history ∨ ∃ written, f = .applied d.event written := by
  have hold {t : BillingState} (ht : GoesOn d.event s t) (hlost : t.history ≠ .lost d.event :: s.history)
      (hf : f ∈ t.history) : f ∈ s.history ∨ ∃ written, f = .applied d.event written := by
    cases ht with
    | working d' _ _ hhistory => exact .inl (hhistory ▸ hf)
    | ended teamId _ hhistory =>
      rw [hhistory] at hf
      exact (List.mem_cons.1 hf).symm.imp_right fun hf => ⟨teamId, hf⟩
    | lost _ hhistory => exact absurd hhistory hlost
  refine hold (resume_goesOn d) (fun hlost => ?_) hf
  obtain ⟨event, kind, await⟩ := d
  cases await with
  | select key rest =>
    simp only [resume] at hlost
    split at hlost
    · simp only [found] at hlost
      split at hlost
      · split at hlost <;> simp at hlost
      · simp at hlost
    · cases rest <;> simp [search] at hlost
  | update teamId billingPlan =>
    simp only [UpdateHolds] at h
    simp only [resume] at hlost
    split at hlost
    · rename_i hnone
      simp [hnone] at h
    · simp at hlost

theorem Undisturbed.of_frame (h : Undisturbed s) (hdeliveries : ∀ d ∈ t.deliveries, d ∈ s.deliveries)
    (hhistory : t.history = s.history ∨ ∃ teamId, t.history = .checkout teamId :: s.history) : Undisturbed t := by
  have hmem (f : BillingFact) (hf : f ∈ t.history) : f ∈ s.history ∨ ∃ teamId, f = .checkout teamId := by
    rcases hhistory with hh | ⟨teamId, hh⟩
    · exact .inl (hh ▸ hf)
    · rw [hh] at hf
      exact (List.mem_cons.1 hf).symm.imp_right fun hf => ⟨teamId, hf⟩
  refine ⟨fun f hf id => ?_, fun d hd hf => ?_⟩
  · rcases hmem f hf with hf | ⟨teamId, rfl⟩
    · exact h.noLoss f hf id
    · rfl
  · obtain ⟨f, hf, ha⟩ := hf
    rcases hmem f hf with hf | ⟨teamId, rfl⟩
    · exact h.unanswered d (hdeliveries d hd) ⟨f, hf, ha⟩
    · simp [BillingFact.accepts] at ha

/-- A delivery at work goes on. No other delivery of its event is at work. -/
theorem Undisturbed.proceed (h : Undisturbed s) (hfate : OneFate s) {i : Nat} {d : Delivery}
    (hd : s.deliveries[i]? = some d)
    (hholds : ({ s with deliveries := s.deliveries.eraseIdx i } : BillingState).UpdateHolds config d) :
    Undisturbed (({ s with deliveries := s.deliveries.eraseIdx i } : BillingState).resume config d) := by
  have hmem : d ∈ s.deliveries := List.mem_of_getElem? hd
  have hone := hfate.fates d.event.id
  rw [fates_erase hd, if_pos rfl] at hone
  have hother : ∀ d' ∈ s.deliveries.eraseIdx i, d'.event.id ≠ d.event.id := by
    have hzero : (s.deliveries.eraseIdx i).countP (·.event.id = d.event.id) = 0 := by
      simp only [BillingState.fates] at hone
      split at hone <;> omega
    simpa [List.countP_eq_zero] using hzero
  refine ⟨fun f hf id => ?_, fun d' hd' hf => ?_⟩
  · rcases resume_holds hholds f hf with hf | ⟨teamId, rfl⟩
    · exact h.noLoss f hf id
    · rfl
  · have hgoes : GoesOn d.event { s with deliveries := s.deliveries.eraseIdx i } (resume config _ d) := resume_goesOn d
    rcases hgoes with
      ⟨e, he, hdeliveries, hhistory⟩ | ⟨teamId, hdeliveries, hhistory⟩ | ⟨hdeliveries, hhistory⟩
    · rw [hhistory] at hf
      rw [hdeliveries] at hd'
      rcases List.mem_append.1 hd' with hd' | hd'
      · exact h.unanswered d' (List.mem_of_mem_eraseIdx hd') hf
      · rw [List.mem_singleton.1 hd', he] at hf
        exact h.unanswered d hmem hf
    · rw [hdeliveries] at hd'
      obtain ⟨f, hf, ha⟩ := hf
      rw [hhistory] at hf
      rcases List.mem_cons.1 hf with rfl | hf
      · exact hother d' hd' (of_decide_eq_true ha : d.event.id = d'.event.id).symm
      · exact h.unanswered d' (List.mem_of_mem_eraseIdx hd') ⟨f, hf, ha⟩
    · have hlost : BillingFact.lost d.event ∈
          (({ s with deliveries := s.deliveries.eraseIdx i } : BillingState).resume config d).history := by
        rw [hhistory]
        exact List.mem_cons_self
      rcases resume_holds hholds _ hlost with hlost | ⟨teamId, hlost⟩
      · have := h.noLoss _ hlost d.event.id
        simp [BillingFact.loses] at this
      · exact nomatch hlost

theorem Undisturbed.deliver (h : Undisturbed s) (hfate : OneFate s) {event : StripeEvent}
    (hnone : ∀ d ∈ s.deliveries, d.event.id ≠ event.id) : Undisturbed (s.deliver event) := by
  by_cases hknown : event.id ∈ s.stripeEventLog
  · rw [deliver_duplicate hknown]
    refine ⟨fun f hf id => ?_, fun d hd hf => ?_⟩
    · rcases List.mem_cons.1 hf with rfl | hf
      · rfl
      · exact h.noLoss f hf id
    · obtain ⟨f, hf, ha⟩ := hf
      rcases List.mem_cons.1 hf with rfl | hf
      · exact hnone d hd (of_decide_eq_true ha : event.id = d.event.id).symm
      · exact h.unanswered d hd ⟨f, hf, ha⟩
  · have hnew : ¬ ∃ f ∈ s.history, f.accepts event.id = true := fun hf => hknown (hfate.accepted _ hf)
    rcases (deliver_goesOn hknown).1 with ⟨e, he, hdeliveries, hhistory⟩ | ⟨teamId, hdeliveries, hhistory⟩ |
      ⟨hdeliveries, hhistory⟩
    · refine ⟨fun f hf id => h.noLoss f (hhistory ▸ hf) id, fun d hd hf => ?_⟩
      rw [hhistory] at hf
      rw [hdeliveries] at hd
      rcases List.mem_append.1 hd with hd | hd
      · exact h.unanswered d hd hf
      · rw [List.mem_singleton.1 hd, he] at hf
        exact hnew hf
    · refine ⟨fun f hf id => ?_, fun d hd hf => ?_⟩
      · rw [hhistory] at hf
        rcases List.mem_cons.1 hf with rfl | hf
        · rfl
        · exact h.noLoss f hf id
      · rw [hdeliveries] at hd
        obtain ⟨f, hf, ha⟩ := hf
        rw [hhistory] at hf
        rcases List.mem_cons.1 hf with rfl | hf
        · exact hnone d hd (of_decide_eq_true ha : event.id = d.event.id).symm
        · exact h.unanswered d hd ⟨f, hf, ha⟩
    · -- The first statement does not lose the event.
      simp only [BillingState.deliver, if_neg hknown] at hhistory
      split at hhistory
      · simp at hhistory
      · rename_i kind _
        cases hkeys : event.keys with
        | nil => simp [hkeys, search] at hhistory
        | cons key rest => simp [hkeys, search] at hhistory

theorem Undisturbed.step (h : Undisturbed s) (hfate : OneFate s) {label : BillingLabel}
    (hC : s.Completes config label) (hs : s.step config label = some t) : Undisturbed t := by
  cases label with
  | createTeam team =>
    simp only [BillingState.step] at hs
    split at hs
    · obtain ⟨teams, -, rfl⟩ := Option.map_eq_some_iff.1 hs
      exact h.of_frame (fun _ hd => hd) (.inl rfl)
    · exact nomatch hs
  | deleteTeam id =>
    cases hs
    exact h.of_frame (fun _ hd => hd) (.inl rfl)
  | deliver event =>
    cases hs
    exact h.deliver hfate hC
  | refuse event =>
    cases hs
    exact h
  | proceed i =>
    obtain ⟨d, hd, rfl⟩ := Option.map_eq_some_iff.1 hs
    exact h.proceed hfate hd (hC d (by simp [hd]))
  | fail i => exact hC.elim
  | startCheckout actor plan =>
    simp only [BillingState.step] at hs
    split at hs
    · cases hs
      exact h
    · cases hs
      exact h.of_frame (fun _ hd => hd) (.inl rfl)
  | resumeCheckout i answer =>
    obtain ⟨c, hc, rfl⟩ := Option.map_eq_some_iff.1 hs
    obtain ⟨hdeliveries, -, hhistory⟩ :=
      resumeCheckout_frame (s := { s with checkouts := s.checkouts.eraseIdx i }) c answer
    exact h.of_frame (fun d hd => hdeliveries ▸ hd) (hhistory.imp_right fun hh => ⟨_, hh⟩)
  | abandonCheckout i =>
    simp only [BillingState.step] at hs
    split at hs
    · cases hs
      exact h.of_frame (fun _ hd => hd) (.inl rfl)
    · exact nomatch hs
  | crash =>
    cases hs
    have hempty : s.deliveries = [] := hC
    refine ⟨fun f hf id => h.noLoss f (by simpa [hempty] using hf) id, fun d hd => nomatch hd⟩

/-- **A run without a cut-off delivery takes every event once.** -/
theorem takenOnce (hs : (billing config).ReachableUnder (Completes config) s) (id : String) : s.TakenOnce id := by
  have hkept : Undisturbed s := by
    refine hs.invariant Undisturbed (fun s hs => ?_) fun s a t hr hI hC hstep => hI.step (oneFate hr.reachable) hC hstep
    subst hs
    exact ⟨fun f hf => (nomatch hf), fun d hd => nomatch hd⟩
  intro hf
  refine ((oneFate hs.reachable).takenOnce_iff hf).2 ⟨fun f hf => hkept.noLoss f hf id, fun hwork => ?_⟩
  obtain ⟨d, hd, rfl⟩ := hwork
  exact hkept.unanswered d hd hf

/-- No prices. -/
def noPrices : StripeConfig := ⟨none, none, none⟩

/-- An active subscription of the team plan. -/
def activeSubscription (id : String) : StripeEvent :=
  { id, kind := "customer.subscription.updated"
    object := .object [("id", .string "sub"), ("customer", .string "cus"), ("status", .string "active"),
      ("metadata", .object [("teamId", .string "team"), ("plan", .string "team")])] }

/-- A delivery that comes to its end, and a redelivery. -/
def deliveredTwice : List BillingLabel :=
  [.createTeam { id := "team" }, .deliver (activeSubscription "evt"), .proceed 0, .proceed 0,
    .deliver (activeSubscription "evt")]

/-- A delivery whose UPDATE fails, and a redelivery. -/
def failedUpdate : List BillingLabel :=
  [.createTeam { id := "team" }, .deliver (activeSubscription "evt"), .proceed 0, .fail 0,
    .deliver (activeSubscription "evt")]

end BillingState

end Bittery
