/-
Which pass a call of `refreshFromServer` is served by, and that every call settles.

A pass serves a call when it has started after it. A call that waits for a pass is served as long
as that pass had not started when the call came; one that waits for a follow-up is served as
long as no other pass, started before the call, has taken the entry before the follow-up goes on.
-/
import Bittery.Client.ServerRefreshes

namespace Bittery

open Lib

variable {ω : Type}

namespace ServerRefreshes

variable {s s' : ServerRefreshes ω} {a : ServerRefreshLabel ω}

/-! ## Whom a pass serves -/

/-- The pass has not started before the time `k`. -/
def Later (s : ServerRefreshes ω) (k p : Nat) : Prop := ∀ started, s.started? p = some started → k < started

/-- The follow-up will have a pass that has not started before `k`: none but the one it waits
for is in the way. -/
def LeadsLater (s : ServerRefreshes ω) (k : Nat) : FollowUp → Prop
  | .waiting p => ∀ q, s.serverRefreshes = some q → q ≠ p → s.Later k q
  | .joined p => s.Later k p

def Serves (s : ServerRefreshes ω) (call : ServerRefreshCall ω) : Prop :=
  match call.await with
  | .accountHydrations => True
  | .refreshAccount (.refresh p) => s.Later call.calledAt p
  | .refreshAccount (.followUp f) => ∃ u, s.followUps[f]? = some u ∧ s.LeadsLater call.calledAt u
  | .settled p outcome => ∃ started, s.passes[p]? = some (.settled started outcome) ∧ call.calledAt < started

structure Fresh (s : ServerRefreshes ω) : Prop where
  times : ∀ call ∈ s.calls, call.calledAt < s.clock
  serves : ∀ call ∈ s.calls, s.Serves call

theorem fresh_initial : (initial : ServerRefreshes ω).Fresh where
  times call hcall := by cases hcall
  serves call hcall := by cases hcall

/-- What a step leaves: a pass that started has started since, a pass that takes the entry has not
started, and what has settled stays so. -/
structure Onward (s s' : ServerRefreshes ω) : Prop where
  clock : s.clock ≤ s'.clock
  started : ∀ p started, s'.started? p = some started → s.started? p = some started ∨ s.clock ≤ started
  entry : ∀ q, s'.serverRefreshes = some q → s.serverRefreshes = some q ∨ s'.started? q = none
  settled : ∀ (p started : Nat) (outcome : ω), s.passes[p]? = some (.settled started outcome) →
    s'.passes[p]? = some (.settled started outcome)

theorem Later.mono {k p : Nat} (h : s.Later k p) (honward : s.Onward s') (hk : k < s.clock) : s'.Later k p := by
  intro started hstarted
  rcases honward.started p started hstarted with hold | hnew
  · exact h started hold
  · exact Nat.lt_of_lt_of_le hk hnew

theorem LeadsLater.mono {k : Nat} {u : FollowUp} (h : s.LeadsLater k u) (honward : s.Onward s') (hk : k < s.clock) :
    s'.LeadsLater k u := by
  cases u with
  | joined p => exact Later.mono h honward hk
  | waiting p =>
    intro q hq hne
    rcases honward.entry q hq with hold | hnew
    · exact (h q hold hne).mono honward hk
    · intro started hstarted
      rw [hnew] at hstarted
      cases hstarted

/-- What serves a call goes on doing so, whatever becomes of the follow-ups that had led it to
a later pass. -/
theorem Serves.mono {call : ServerRefreshCall ω} (h : s.Serves call) (honward : s.Onward s')
    (hk : call.calledAt < s.clock)
    (hfollowUps : ∀ (f : Nat) (u : FollowUp), s.followUps[f]? = some u → s.LeadsLater call.calledAt u →
      ∃ u', s'.followUps[f]? = some u' ∧ s'.LeadsLater call.calledAt u') : s'.Serves call := by
  unfold Serves at h ⊢
  split
  · trivial
  · next p hawait =>
    rw [hawait] at h
    exact Later.mono h honward hk
  · next f hawait =>
    rw [hawait] at h
    obtain ⟨u, hf, hu⟩ := h
    exact hfollowUps f u hf hu
  · next p outcome hawait =>
    rw [hawait] at h
    obtain ⟨started, hp, hlt⟩ := h
    exact ⟨started, honward.settled p started outcome hp, hlt⟩

theorem Onward.same (hclock : s.clock ≤ s'.clock) (hpasses : s'.passes = s.passes)
    (hentry : s'.serverRefreshes = s.serverRefreshes) : s.Onward s' where
  clock := hclock
  started p started h := .inl (by rwa [started?, hpasses] at h)
  entry q hq := .inl (hentry ▸ hq)
  settled p started outcome hp := by rwa [hpasses]

theorem started?_new (s : ServerRefreshes ω) : s.startRefresh.2.started? s.passes.length = none := by
  simp [started?, startRefresh, ServerPass.started?]

theorem onward_startRefresh (s : ServerRefreshes ω) : s.Onward s.startRefresh.2 where
  clock := Nat.le_refl _
  started p started h := by
    rcases Nat.lt_or_ge p s.passes.length with hlt | hge
    · refine .inl ?_
      simpa [started?, startRefresh, List.getElem?_append_left hlt] using h
    · obtain ⟨x, hx, hstarted⟩ := Option.bind_eq_some_iff.mp h
      have := (List.getElem?_eq_some_iff.mp hx).1
      simp only [startRefresh, List.length_append, List.length_singleton] at this
      obtain rfl : p = s.passes.length := by omega
      rw [started?_new] at h
      cases h
  entry q hq := by
    obtain rfl := Option.some.inj hq
    exact .inr (started?_new s)
  settled p started outcome hp := by
    have hlt := (List.getElem?_eq_some_iff.mp hp).1
    simpa [startRefresh, List.getElem?_append_left hlt] using hp

theorem onward_refreshAccountFromServer (s : ServerRefreshes ω) : s.Onward s.refreshAccountFromServer.2 := by
  rcases refreshAccountFromServer_cases s with ⟨p, -, heq⟩ | ⟨-, heq⟩
  · rw [heq]
    exact .same (Nat.le_refl _) rfl rfl
  · rw [heq]
    exact onward_startRefresh s

/-- A pass that has not settled goes on. -/
theorem Onward.set {p : Nat} {x y : ServerPass ω} (hx : s.passes[p]? = some x)
    (hpasses : s'.passes = s.passes.set p y)
    (hunsettled : ∀ (started : Nat) (outcome : ω), x ≠ .settled started outcome) (hclock : s.clock ≤ s'.clock)
    (hstarted : ∀ started, y.started? = some started → x.started? = some started ∨ s.clock ≤ started)
    (hentry : ∀ q, s'.serverRefreshes = some q → s.serverRefreshes = some q) : s.Onward s' where
  clock := hclock
  started q started h := by
    rw [started?, hpasses] at h
    by_cases hq : q = p
    · subst hq
      rw [List.getElem?_set_self (List.getElem?_eq_some_iff.mp hx).1, Option.bind_some] at h
      rw [started?, hx, Option.bind_some]
      exact hstarted started h
    · rw [List.getElem?_set_ne (Ne.symm hq)] at h
      exact .inl h
  entry q hq := .inl (hentry q hq)
  settled q started outcome hq := by
    rw [hpasses, List.getElem?_set_ne, hq]
    rintro rfl
    exact hunsettled started outcome (Option.some.inj (hx.symm.trans hq))

theorem InLine.onward (h : s.InLine) (hmoves : Moves s a s') : s.Onward s' := by
  cases hmoves with
  | call => exact .same (Nat.le_succ _) rfl rfl
  | refresh => exact onward_refreshAccountFromServer s
  | hydrate | resumeQueued | resumeQueues | startLocal | finishLocal | settleCall =>
    exact .same (Nat.le_refl _) rfl rfl
  | resumeStarts =>
    have hnew := onward_startRefresh s
    exact ⟨hnew.clock, hnew.started, hnew.entry, hnew.settled⟩
  | startPass _ htails =>
    obtain ⟨x, hx, hflight⟩ := (h.behind _).mp (htails ▸ List.mem_cons_self ..)
    refine .set hx rfl (fun started outcome hsettled => ?_) (Nat.le_succ _) (fun started hstarted => .inr ?_) fun q hq => hq
    · rw [hsettled] at hflight
      cases hflight
    · exact Nat.le_of_eq (Option.some.inj hstarted)
  | finishPass _ _ hp =>
    exact .set hp rfl (by simp) (Nat.le_refl _) (fun started hstarted => .inl hstarted) fun q hq => hq
  | release hp =>
    exact .set hp rfl (by simp) (Nat.le_refl _) (fun started hstarted => .inl hstarted) fun q hq => by cases hq
  | settle hp => exact .set hp rfl (by simp) (Nat.le_refl _) (fun started hstarted => .inl hstarted) fun q hq => hq
  | followUp =>
    have hnew := onward_refreshAccountFromServer ({ s with queuedServerRefreshes := none } : ServerRefreshes ω)
    exact ⟨hnew.clock, hnew.started, hnew.entry, hnew.settled⟩

/-- A follow-up whose pass has settled has a pass that serves whom it was queued for. -/
theorem InLine.later_followUp (h : s.InLine) {f p started k : Nat} {outcome : ω}
    (hp : s.passes[p]? = some (.settled started outcome)) (hu : s.LeadsLater k (.waiting p)) (hk : k < s.clock)
    (honward : s.Onward (s.followUp f)) :
    (s.followUp f).Later k ({ s with queuedServerRefreshes := none } : ServerRefreshes ω).refreshAccountFromServer.1 := by
  rcases refreshAccountFromServer_cases ({ s with queuedServerRefreshes := none } : ServerRefreshes ω) with
    ⟨q, hq, heq⟩ | ⟨-, heq⟩
  · have hne : q ≠ p := by
      rintro rfl
      obtain ⟨x, hx, hheld⟩ := (h.entry q).mp hq
      obtain rfl := Option.some.inj (hp.symm.trans hx)
      cases hheld
    rw [heq]
    exact (hu q hq hne).mono honward hk
  · intro started' hstarted
    have hnew := started?_new ({ s with queuedServerRefreshes := none } : ServerRefreshes ω)
    rw [heq] at hstarted
    simp only [ServerRefreshes.followUp, heq] at hstarted
    exact absurd (hstarted.symm.trans hnew) (by simp)

theorem Later.settled {k p : Nat} (h : s.Later k p) {started : Nat} {outcome : ω}
    (hp : s.passes[p]? = some (.settled started outcome)) : k < started :=
  h started (by simp [started?, hp, ServerPass.started?])

/-- The promise that a call awaits settles with the outcome of a pass that serves it. -/
theorem Serves.settle {k p : Nat} {promise : RefreshPromise} {outcome : ω}
    (h : s.Serves ⟨k, .refreshAccount promise⟩) (hsettled : s.settledWith promise = some (p, outcome)) :
    ∃ started, s.passes[p]? = some (.settled started outcome) ∧ k < started := by
  cases promise with
  | refresh q =>
    simp only [settledWith] at hsettled
    split at hsettled
    · next started outcome' hq =>
      obtain ⟨rfl, rfl⟩ : q = p ∧ outcome' = outcome := by simpa using hsettled
      exact ⟨started, hq, Later.settled h hq⟩
    · cases hsettled
  | followUp f =>
    obtain ⟨u, hf, hu⟩ := h
    simp only [settledWith] at hsettled
    split at hsettled
    · next q hjoined =>
      split at hsettled
      · next started outcome' hq =>
        obtain ⟨rfl, rfl⟩ : q = p ∧ outcome' = outcome := by simpa using hsettled
        obtain rfl := Option.some.inj (hf.symm.trans hjoined)
        exact ⟨started, hq, Later.settled hu hq⟩
      · cases hsettled
    · cases hsettled

theorem Fresh.moves (h : s.Fresh) (hline : s.InLine) (hlinked : s.Linked) (hC : s.QueuesFresh a)
    (hmoves : Moves s a s') : s'.Fresh := by
  have honward := hline.onward hmoves
  -- the follow-ups that are not touched lead where they led
  have hkept : s'.followUps = s.followUps → ∀ call ∈ s.calls, s'.Serves call := by
    intro hfollowUps call hcall
    refine (h.serves call hcall).mono honward (h.times call hcall) fun f u hf hu => ?_
    exact ⟨u, hfollowUps ▸ hf, hu.mono honward (h.times call hcall)⟩
  have htimes : ∀ call ∈ s.calls, call.calledAt < s'.clock :=
    fun call hcall => Nat.lt_of_lt_of_le (h.times call hcall) honward.clock
  -- a call went on from `accountHydrations`, or settled
  have hset : ∀ {c k : Nat} {before after : ServerRefreshAwait ω}, s.calls[c]? = some ⟨k, before⟩ →
      s'.calls = s.calls.set c ⟨k, after⟩ → (∀ call ∈ s.calls, s'.Serves call) → s'.Serves ⟨k, after⟩ →
      s'.Fresh := by
    intro c k before after hc hcalls hold hnew
    have hcall := List.mem_of_getElem? hc
    refine ⟨fun call hcall' => ?_, fun call hcall' => ?_⟩
    · rcases mem_set_call (hcalls ▸ hcall') with hmem | rfl
      · exact htimes call hmem
      · exact htimes ⟨k, before⟩ hcall
    · rcases mem_set_call (hcalls ▸ hcall') with hmem | rfl
      · exact hold call hmem
      · exact hnew
  cases hmoves with
  | call =>
    refine ⟨fun call hcall => ?_, fun call hcall => ?_⟩
    · rcases List.mem_append.mp hcall with hmem | hnew
      · exact htimes call hmem
      · obtain rfl := List.mem_singleton.mp hnew
        exact Nat.lt_succ_self _
    · rcases List.mem_append.mp hcall with hmem | hnew
      · exact hkept rfl call hmem
      · obtain rfl := List.mem_singleton.mp hnew
        trivial
  | refresh =>
    obtain ⟨hfollowUps, hcalls, -, -⟩ := refreshAccountFromServer_frame s
    exact ⟨fun call hcall => htimes call (hcalls ▸ hcall), fun call hcall => hkept hfollowUps call (hcalls ▸ hcall)⟩
  | hydrate | startPass | startLocal | finishPass | finishLocal | release | settle => exact ⟨htimes, hkept rfl⟩
  | @resumeQueued c k p f hc hp hf =>
    obtain ⟨q, hwaits⟩ := (hlinked.queued f).mp hf
    refine hset hc rfl (hkept rfl) ⟨.waiting q, hwaits, fun r hr hne started hstarted => ?_⟩
    obtain rfl := Option.some.inj (hp.symm.trans hr)
    refine hC _ hc p hp f hf (fun hpf => hne ?_) started hstarted
    simpa [hwaits] using hpf.symm
  | @resumeQueues c k p hc hp hnone =>
    refine hset hc rfl (fun call hcall => ?_) ⟨.waiting p, by simp, fun q hq hne => ?_⟩
    · refine (h.serves call hcall).mono honward (h.times call hcall) fun f u hf hu => ?_
      have hlt := (List.getElem?_eq_some_iff.mp hf).1
      exact ⟨u, by rwa [List.getElem?_append_left hlt], hu.mono honward (h.times call hcall)⟩
    · exact absurd (Option.some.inj (hp.symm.trans hq)).symm hne
  | @resumeStarts c k hc hnone =>
    refine hset hc rfl (hkept rfl) fun started hstarted => ?_
    exact absurd (hstarted.symm.trans (started?_new s)) (by simp)
  | @followUp f p started outcome hf hp =>
    obtain ⟨hfollowUps, hcalls, -, -⟩ :=
      refreshAccountFromServer_frame ({ s with queuedServerRefreshes := none } : ServerRefreshes ω)
    refine ⟨fun call hcall => htimes call (hcalls ▸ hcall), fun call hcall => ?_⟩
    have hcall := hcalls ▸ hcall
    refine (h.serves call hcall).mono honward (h.times call hcall) fun g u hg hu => ?_
    by_cases hgf : f = g
    · subst hgf
      obtain rfl := Option.some.inj (hf.symm.trans hg)
      refine ⟨.joined _, ?_, hline.later_followUp hp hu (h.times call hcall) honward⟩
      simp only [ServerRefreshes.followUp, hfollowUps]
      exact List.getElem?_set_self (List.getElem?_eq_some_iff.mp hg).1
    · refine ⟨u, ?_, hu.mono honward (h.times call hcall)⟩
      simp only [ServerRefreshes.followUp, hfollowUps]
      rwa [List.getElem?_set_ne hgf]
  | settleCall hc hsettled =>
    exact hset hc rfl (hkept rfl) ((h.serves _ (List.mem_of_getElem? hc)).settle hsettled)

/-! ## Every call settles -/

end ServerRefreshes

/-- How many steps the pass has ahead of it once it is over, and how many the others have. -/
def ServerPass.work : ServerPass ω → Nat
  | .registered | .running _ | .finished _ _ => 2
  | .released _ _ => 1
  | .settled _ _ => 0

def FollowUp.work : FollowUp → Nat
  | .waiting _ => 5
  | .joined _ => 0

def ServerRefreshCall.work (call : ServerRefreshCall ω) : Nat :=
  match call.await with
  | .accountHydrations => 7
  | .refreshAccount _ => 1
  | .settled _ _ => 0

namespace ServerRefreshes

variable {s s' : ServerRefreshes ω} {a : ServerRefreshLabel ω}

/-- More than the steps that are left while nobody asks for anything new: each operation behind the
tail starts and finishes. -/
def work (s : ServerRefreshes ω) : Nat :=
  2 * s.hydrationTails.length + (!s.operating).toNat + (s.passes.map ServerPass.work).sum +
    (s.followUps.map FollowUp.work).sum + (s.calls.map ServerRefreshCall.work).sum

theorem work_refreshAccountFromServer (s : ServerRefreshes ω) : s.refreshAccountFromServer.2.work ≤ s.work + 4 := by
  rcases refreshAccountFromServer_cases s with ⟨p, -, heq⟩ | ⟨-, heq⟩
  · rw [heq]
    exact Nat.le_add_right _ _
  · rw [heq]
    simp only [work, startRefresh, List.length_append, List.length_singleton, List.map_append, List.map_singleton,
      List.sum_append, List.sum_singleton, ServerPass.work]
    omega

/-- Every step that no caller asks for leaves less to do. -/
theorem InLine.work_moves (h : s.InLine) (hmoves : Moves s a s') (ha : a.goesOn = true) : s'.work < s.work := by
  cases hmoves with
  | call | refresh | hydrate => cases ha
  | @resumeQueued c k p f hc hp hf =>
    have := sum_map_set hc ⟨k, .refreshAccount (.followUp f)⟩ ServerRefreshCall.work
    simp only [work, ServerRefreshCall.work] at this ⊢
    omega
  | @resumeQueues c k p hc hp hnone =>
    have := sum_map_set hc ⟨k, .refreshAccount (.followUp s.followUps.length)⟩ ServerRefreshCall.work
    simp only [work, ServerRefreshCall.work, List.map_append, List.map_singleton, List.sum_append, List.sum_singleton,
      FollowUp.work] at this ⊢
    omega
  | @resumeStarts c k hc hnone =>
    have := sum_map_set hc ⟨k, .refreshAccount (.refresh s.passes.length)⟩ ServerRefreshCall.work
    simp only [work, ServerRefreshes.startRefresh, ServerRefreshCall.work, List.length_append, List.length_singleton, List.map_append,
      List.map_singleton, List.sum_append, List.sum_singleton, ServerPass.work] at this ⊢
    omega
  | startPass hidle htails =>
    obtain ⟨x, hx, hflight⟩ := (h.behind _).mp (htails ▸ List.mem_cons_self ..)
    have hsame : x.work = 2 := by
      cases x with
      | registered | running => rfl
      | finished | released | settled => cases hflight
    have := sum_map_set hx (.running s.clock) ServerPass.work
    simp only [work, hsame, hidle, Bool.not_true, Bool.not_false, Bool.toNat_true, Bool.toNat_false] at this ⊢
    simp only [ServerPass.work] at this
    omega
  | startLocal hidle htails =>
    simp only [work, hidle, Bool.not_true, Bool.not_false, Bool.toNat_true, Bool.toNat_false]
    omega
  | @finishPass p started outcome tails hoperating htails hp =>
    have := sum_map_set hp (.finished started outcome) ServerPass.work
    simp only [work, ServerPass.work, hoperating, htails, Bool.not_true, Bool.not_false, Bool.toNat_true, Bool.toNat_false, List.length_cons] at this ⊢
    omega
  | finishLocal hoperating htails =>
    simp only [work, hoperating, htails, Bool.not_true, Bool.not_false, Bool.toNat_true, Bool.toNat_false, List.length_cons]
    omega
  | @release p started outcome hp =>
    have := sum_map_set hp (.released started outcome) ServerPass.work
    simp only [work, ServerPass.work] at this ⊢
    omega
  | @settle p started outcome hp =>
    have := sum_map_set hp (.settled started outcome) ServerPass.work
    simp only [work, ServerPass.work] at this ⊢
    omega
  | @followUp f p started outcome hf hp =>
    have hadded := work_refreshAccountFromServer ({ s with queuedServerRefreshes := none } : ServerRefreshes ω)
    obtain ⟨hfollowUps, -, -, -⟩ :=
      refreshAccountFromServer_frame ({ s with queuedServerRefreshes := none } : ServerRefreshes ω)
    have := sum_map_set hf
      (.joined ({ s with queuedServerRefreshes := none } : ServerRefreshes ω).refreshAccountFromServer.1) FollowUp.work
    simp only [work, ServerRefreshes.followUp, hfollowUps, FollowUp.work] at this hadded ⊢
    omega
  | @settleCall c k p promise outcome hc hsettled =>
    have := sum_map_set hc ⟨k, .settled p outcome⟩ ServerRefreshCall.work
    simp only [work, ServerRefreshCall.work] at this ⊢
    omega

/-- While nobody asks for anything new, no more steps are made than there is work. -/
theorem InLine.length_le_work {labels : List (ServerRefreshLabel ω)} (h : s.InLine) (hgoesOn : ∀ a ∈ labels, a.goesOn = true)
    (hrun : (system ω).run s labels = some s') : labels.length ≤ s.work ∧ s'.InLine := by
  induction labels generalizing s with
  | nil =>
    obtain rfl := Option.some.inj hrun
    exact ⟨Nat.zero_le _, h⟩
  | cons a labels ih =>
    obtain ⟨t, hstep, hrest⟩ := Option.bind_eq_some_iff.mp hrun
    have hmoves := moves_of_step hstep
    have hless := h.work_moves hmoves (hgoesOn a (List.mem_cons_self ..))
    obtain ⟨hlength, hline⟩ := ih (h.moves hmoves) (fun b hb => hgoesOn b (List.mem_cons_of_mem _ hb)) hrest
    exact ⟨by simp only [List.length_cons]; omega, hline⟩

/-- Nothing can happen unless somebody asks for something new. -/
def Quiet (s : ServerRefreshes ω) : Prop := ∀ a : ServerRefreshLabel ω, a.goesOn = true → s.step a = none

/-- In a quiet state no operation is left, and all passes have settled. -/
theorem Quiet.passes [Inhabited ω] (h : s.Quiet) (hline : s.InLine) {p : Nat} {x : ServerPass ω}
    (hp : s.passes[p]? = some x) : ∃ started outcome, x = .settled started outcome := by
  have hdone : s.hydrationTails = [] := by
    cases htails : s.hydrationTails with
    | nil => rfl
    | cons o tails =>
      cases hoperating : s.operating with
      | false =>
        have := h .start rfl
        cases o <;> simp [step, hoperating, htails] at this
      | true =>
        have := h (.finish default) rfl
        cases o with
        | none => simp [step, hoperating, htails] at this
        | some q =>
          obtain ⟨started, hq⟩ := hline.first q tails hoperating htails
          simp [step, hoperating, htails, hq] at this
  have hover : x.inFlight = false := by
    cases hx : x.inFlight with
    | false => rfl
    | true =>
      have := (hline.behind p).mpr ⟨x, hp, hx⟩
      rw [hdone] at this
      cases this
  cases x with
  | registered | running => cases hover
  | finished started outcome =>
    have := h (.release p) rfl
    simp [step, hp] at this
  | released started outcome =>
    have := h (.settle p) rfl
    simp [step, hp] at this
  | settled started outcome => exact ⟨started, outcome, rfl⟩

theorem Quiet.settledWith [Inhabited ω] (h : s.Quiet) (hline : s.InLine) (hlinked : s.Linked) {promise : RefreshPromise}
    (hreturned : s.Returned promise) : ∃ p outcome, s.settledWith promise = some (p, outcome) := by
  have hpass : ∀ p, p < s.passes.length → ∃ started outcome, s.passes[p]? = some (.settled started outcome) := by
    intro p hp
    obtain ⟨started, outcome, hsettled⟩ := h.passes hline (List.getElem?_eq_getElem hp)
    exact ⟨started, outcome, by rw [List.getElem?_eq_getElem hp, hsettled]⟩
  cases promise with
  | refresh p =>
    obtain ⟨started, outcome, hp⟩ := hpass p hreturned
    exact ⟨p, outcome, by simp [ServerRefreshes.settledWith, hp]⟩
  | followUp f =>
    have hf := List.getElem?_eq_getElem hreturned
    have hlt := hlinked.passes _ (List.getElem_mem hreturned)
    obtain ⟨started, outcome, hp⟩ := hpass _ hlt
    cases hu : s.followUps[f] with
    | waiting p =>
      rw [hu] at hf hp
      have := h (.followUp f) rfl
      simp only [FollowUp.pass] at hp
      simp [step, hf, hp] at this
    | joined p =>
      rw [hu] at hf hp
      simp only [FollowUp.pass] at hp
      exact ⟨p, outcome, by simp [ServerRefreshes.settledWith, hf, hp]⟩

/-- In a quiet state every call has settled. -/
theorem Quiet.calls [Inhabited ω] (h : s.Quiet) (hline : s.InLine) (hlinked : s.Linked) :
    ∀ call ∈ s.calls, call.await.isSettled = true := by
  intro call hcall
  obtain ⟨c, hc⟩ := List.mem_iff_getElem?.mp hcall
  obtain ⟨k, await⟩ := call
  cases await with
  | accountHydrations =>
    have := h (.resume c) rfl
    simp [step, hc] at this
  | refreshAccount promise =>
    obtain ⟨p, outcome, hsettled⟩ := h.settledWith hline hlinked (hlinked.returned _ hcall promise rfl)
    have := h (.settleCall c) rfl
    simp [step, hc, hsettled] at this
  | settled p outcome => rfl

/-! ## The result -/

/-- Each call that has settled has done so with the outcome of a pass that started after it. -/
def Served (s : ServerRefreshes ω) : Prop := ∀ call ∈ s.calls, ∀ p outcome, call.await = .settled p outcome →
  ∃ started, s.passes[p]? = some (.settled started outcome) ∧ call.calledAt < started

instance (s : ServerRefreshes ω) (k p : Nat) (outcome : ω) [DecidableEq ω] :
    Decidable (∃ started, s.passes[p]? = some (.settled started outcome) ∧ k < started) :=
  decidable_of_iff (∃ started ∈ s.started? p, s.passes[p]? = some (.settled started outcome) ∧ k < started) <| by
    constructor
    · rintro ⟨started, -, h⟩
      exact ⟨started, h⟩
    · rintro ⟨started, hp, hlt⟩
      exact ⟨started, by simp [started?, hp, ServerPass.started?], hp, hlt⟩

/-- At most one pass is in flight, and at most one follow-up is queued behind it. -/
structure Coalesced (s : ServerRefreshes ω) : Prop where
  inFlight : ∀ (p q : Nat) (x y : ServerPass ω), s.passes[p]? = some x → s.passes[q]? = some y →
    x.held = true → y.held = true → p = q
  queued : ∀ f g p q : Nat, s.followUps[f]? = some (.waiting p) → s.followUps[g]? = some (.waiting q) → f = g

theorem coalesced_of (hline : s.InLine) (hlinked : s.Linked) : s.Coalesced where
  inFlight p q x y hp hq hx hy := by
    have := (hline.entry p).mpr ⟨x, hp, hx⟩
    rw [(hline.entry q).mpr ⟨y, hq, hy⟩] at this
    exact (Option.some.inj this).symm
  queued f g p q hf hg := by
    have := (hlinked.queued f).mpr ⟨p, hf⟩
    rw [(hlinked.queued g).mpr ⟨q, hg⟩] at this
    exact (Option.some.inj this).symm

theorem linked_of_reachable (h : (system ω).Reachable s) : s.InLine ∧ s.Linked :=
  h.invariant (fun s => s.InLine ∧ s.Linked) (fun _ hs => hs ▸ ⟨inLine_initial, linked_initial⟩)
    fun _ _ _ _ hI hstep =>
      ⟨hI.1.moves (moves_of_step hstep), hI.2.moves hI.1 (moves_of_step hstep)⟩

theorem fresh_of_reachable (h : (system ω).ReachableUnder QueuesFresh s) : s.Fresh :=
  h.invariant Fresh (fun _ hs => hs ▸ fresh_initial) fun _ _ _ hr hI hC hstep =>
    have hlinked := linked_of_reachable hr.reachable
    hI.moves hlinked.1 hlinked.2 hC (moves_of_step hstep)

end ServerRefreshes

open ServerRefreshes

/-- **A refresh is served by a pass that started after it.** As long as no call joins a follow-up
while a pass that started before the call has taken the place of the one the follow-up waits for,
every call settles with the outcome of a pass that started after it. Whatever the order of the
steps, at most one pass is in flight and one follow-up queued; and once nobody asks for anything
new, the steps come to an end, and then every call has settled. -/
theorem refreshes_served [Inhabited ω] {s : ServerRefreshes ω} (h : (system ω).ReachableUnder QueuesFresh s) :
    s.Served ∧ s.Coalesced ∧
    ∀ (labels : List (ServerRefreshLabel ω)) (t : ServerRefreshes ω), (∀ a ∈ labels, a.goesOn = true) →
      (system ω).run s labels = some t →
      t.Coalesced ∧ labels.length ≤ s.work ∧ (t.Quiet → ∀ call ∈ t.calls, call.await.isSettled = true) := by
  have hlinked := linked_of_reachable h.reachable
  refine ⟨fun call hcall p outcome hawait => ?_, coalesced_of hlinked.1 hlinked.2, fun labels t hgoesOn hrun => ?_⟩
  · have hserves := (fresh_of_reachable h).serves call hcall
    simpa only [Serves, hawait] using hserves
  · have hlinked' := linked_of_reachable (h.reachable.run hrun)
    exact ⟨coalesced_of hlinked'.1 hlinked'.2, (hlinked.1.length_le_work hgoesOn hrun).1,
      fun hquiet => hquiet.calls hlinked'.1 hlinked'.2⟩

/-- A call that arrives during a pass is served by its follow-up. -/
theorem refreshes_served_followUp : ∃ s : ServerRefreshes Bool, (system Bool).run initial
      [.call, .resume 0, .start, .call, .resume 1, .finish true, .release 0, .settle 0, .settleCall 0, .followUp 0,
       .start, .finish false, .release 1, .settle 1, .settleCall 1] = some s ∧
    s.calls = [⟨0, .settled 0 true⟩, ⟨2, .settled 1 false⟩] ∧ s.Served := by
  have hrun : (((system Bool).runUnder QueuesFresh initial
      [.call, .resume 0, .start, .call, .resume 1, .finish true, .release 0, .settle 0, .settleCall 0, .followUp 0,
       .start, .finish false, .release 1, .settle 1, .settleCall 1]).any fun s =>
      decide (s.calls = [⟨0, .settled 0 true⟩, ⟨2, .settled 1 false⟩])) = true := by decide +kernel
  rw [Option.any_eq_true] at hrun
  obtain ⟨s, hrun, hcalls⟩ := hrun
  exact ⟨s, System.run_of_runUnder hrun, of_decide_eq_true hcalls,
    (refreshes_served (System.ReachableUnder.runUnder (.init rfl) hrun)).1⟩

/-- A call joins the follow-up of a pass that is over, after another pass has started: the
follow-up then joins that pass, which started before the call. -/
theorem stale_pass_joined : ¬ ∀ s : ServerRefreshes Bool, (system Bool).Reachable s → s.Served := by
  have hrun : (((system Bool).run initial
      [.call, .resume 0, .start, .call, .resume 1, .finish true, .release 0, .call, .resume 2, .start, .call, .resume 3,
       .settle 0, .followUp 0, .finish true, .release 1, .settle 1, .settleCall 3]).any fun s =>
      decide (∃ call ∈ s.calls, call = ⟨5, .settled 1 true⟩ ∧
        ¬ ∃ started, s.passes[1]? = some (.settled started true) ∧ 5 < started)) = true := by decide +kernel
  rw [Option.any_eq_true] at hrun
  obtain ⟨s, hrun, hstale⟩ := hrun
  obtain ⟨call, hcall, rfl, hstale⟩ := of_decide_eq_true hstale
  intro h
  exact hstale (h s (.run (.init rfl) hrun) _ hcall 1 true rfl)

end Bittery
