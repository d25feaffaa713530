/-
The life of a stream connection, in the sync manager that the clients share and in that of the
extension: at most one stream is open, the status is connected only while one is, and after a
`disconnect` nothing is left that could open one.

Both hold as long as what was disconnected does not come back: an attempt whose controller was
aborted ends with an `AbortError`. In the extension, an attempt that still looks for its
account has no controller to abort, and an alarm that went off has its `connect` to come.
-/
import Bittery.Client.ExtensionSync

namespace Bittery

open Lib

/-! ## The shared manager -/

namespace SyncManager

/-- The attempts that were aborted, and no others, end with an `AbortError`. -/
def AbortEnds (q : SyncManager) : Nat × SyncManagerLabel → Prop
  | (_, .opened k outcome) => ∀ t ∈ q.attempts[k]?, t.aborted = true ↔ outcome = .failed true
  | (_, .read k outcome) => ∀ t ∈ q.attempts[k]?, outcome.isChunk = true ∨ (t.aborted = true ↔ outcome = .failed true)
  | _ => True

instance (q : SyncManager) : (a : Nat × SyncManagerLabel) → Decidable (q.AbortEnds a)
  | (_, .opened k outcome) =>
    inferInstanceAs (Decidable (∀ t ∈ q.attempts[k]?, t.aborted = true ↔ outcome = .failed true))
  | (_, .read k outcome) => inferInstanceAs (Decidable
      (∀ t ∈ q.attempts[k]?, outcome.isChunk = true ∨ (t.aborted = true ↔ outcome = .failed true)))
  | (_, .connect) | (_, .disconnect) | (_, .staleCheck) | (_, .reconnectTimeout) => .isTrue trivial

structure Lifecycle (q : SyncManager) : Prop where
  live : OneLive StreamAttempt.stage q.attempts q.connectionStatus.live
  controller : ∀ (k : Nat) (t : StreamAttempt), q.attempts[k]? = some t → t.stage.isSome = true →
    q.abortController = some k
  stopped : q.stopped = true →
    q.connectionStatus = .disconnected ∧ q.reconnectTimeout = none ∧ q.staleCheckInterval = false

variable {q q' : SyncManager} {options : SyncManagerOptions}

theorem lifecycle_initial : initial.Lifecycle where
  live := .nil
  controller k t hk _ := by simp [initial] at hk
  stopped h := by cases h

theorem live_of_idle (h : ¬ (q.connectionStatus = .connected ∨ q.connectionStatus = .connecting)) :
    q.connectionStatus.live = none := by
  cases hstatus : q.connectionStatus with
  | connecting | connected => simp [hstatus] at h
  | disconnected | reconnecting | error => rfl

theorem Lifecycle.connect (h : q.Lifecycle) (hgoing : q.stopped = false) : q.connect.Lifecycle := by
  unfold SyncManager.connect
  split
  · exact h
  · next hidle =>
    have hlive := h.live
    rw [live_of_idle hidle] at hlive
    refine ⟨hlive.start (b := false) rfl, fun k t hk ht => ?_, fun hstopped => ?_⟩
    · rcases Nat.lt_or_ge k q.attempts.length with hlt | hge
      · rw [List.getElem?_append_left hlt] at hk
        simp [hlive.dead (List.mem_of_getElem? hk)] at ht
      · have := (List.getElem?_eq_some_iff.mp hk).1
        simp only [List.length_append, List.length_cons, List.length_nil] at this
        exact congrArg some (by omega)
    · rw [hgoing] at hstopped
      cases hstopped

/-- After a `disconnect` nothing is live. -/
theorem Lifecycle.dead_disconnect (h : q.Lifecycle) : ∀ t ∈ q.disconnect.attempts, t.stage = none :=
  OneLive.dead_of_killed h.controller fun t => by simp [StreamAttempt.stage]

/-- A state in which nothing is live, and no caller has disconnected. -/
theorem lifecycle_of_dead (hdead : ∀ t ∈ q.attempts, t.stage = none) (hstatus : q.connectionStatus.live = none)
    (hstopped : q.stopped = true →
      q.connectionStatus = .disconnected ∧ q.reconnectTimeout = none ∧ q.staleCheckInterval = false) : q.Lifecycle where
  live := hstatus ▸ .of_dead hdead
  controller k t hk ht := by simp [hdead t (List.mem_of_getElem? hk)] at ht
  stopped := hstopped

/-- An attempt goes on: if it is live, the status follows it. -/
theorem Lifecycle.goOn (h : q.Lifecycle) {k : Nat} {t : StreamAttempt} (hk : q.attempts[k]? = some t)
    (hlive : t.stage.isSome = true) {await : StreamAwait} (hattempts : q'.attempts = q.attempts)
    (hcontroller : q'.abortController = q.abortController)
    (hstatus : q'.connectionStatus.live = (StreamAttempt.mk t.aborted await).stage) (hstopped : q'.stopped = q.stopped) :
    (q'.goOn k t await).Lifecycle := by
  have hgoing : q.stopped = false := by
    cases hstop : q.stopped with
    | false => rfl
    | true =>
      have hdead := h.live
      rw [(h.stopped hstop).1] at hdead
      simp [hdead.dead (List.mem_of_getElem? hk)] at hlive
  refine ⟨?_, fun j x hj hx => ?_, fun hstop => ?_⟩
  · simp only [SyncManager.goOn, hattempts, hstatus]
    exact h.live.set_live hk hlive _
  · simp only [SyncManager.goOn, hattempts, hcontroller] at hj ⊢
    by_cases hkj : k = j
    · exact hkj ▸ h.controller k t hk hlive
    · rw [List.getElem?_set_ne hkj] at hj
      exact h.controller j x hj hx
  · rw [SyncManager.goOn, hstopped, hgoing] at hstop
    cases hstop

/-- An attempt that is dead does something. -/
theorem Lifecycle.goOn_dead (h : q.Lifecycle) {k : Nat} {t : StreamAttempt} (hk : q.attempts[k]? = some t)
    (hdead : t.aborted = true) (await : StreamAwait) : (q.goOn k t await).Lifecycle := by
  have hnone : ∀ await, (StreamAttempt.mk t.aborted await).stage = none := fun _ => by simp [StreamAttempt.stage, hdead]
  refine ⟨h.live.set_dead hk (hnone t.await) (hnone await), fun j x hj hx => ?_, h.stopped⟩
  by_cases hkj : k = j
  · subst hkj
    simp only [SyncManager.goOn, List.getElem?_set_self (List.getElem?_eq_some_iff.mp hk).1] at hj
    cases hj
    simp [hnone] at hx
  · simp only [SyncManager.goOn, List.getElem?_set_ne hkj] at hj
    exact h.controller j x hj hx

theorem Lifecycle.opened (h : q.Lifecycle) {k : Nat} {t : StreamAttempt} (hk : q.attempts[k]? = some t)
    (hawait : t.await = .openSyncEvents) {outcome : OpenOutcome}
    (habort : t.aborted = true ↔ outcome = .failed true) : (q.opened options k t outcome).Lifecycle := by
  cases haborted : t.aborted with
  | true =>
    rw [habort.mp haborted]
    exact h.goOn_dead hk haborted _
  | false =>
    have hlive : t.stage.isSome = true := by simp [StreamAttempt.stage, haborted, hawait]
    have hfailed : (((q.setStatus .error).scheduleReconnect options).goOn k t .ended).Lifecycle :=
      h.goOn hk hlive rfl rfl (by rw [haborted]; rfl) rfl
    match outcome, habort with
    | .response true true, _ => exact h.goOn hk hlive rfl rfl (by rw [haborted]; rfl) rfl
    | .response true false, _ | .response false _, _ | .failed false, _ => exact hfailed
    | .failed true, habort => exact absurd (habort.mpr rfl) (by simp [haborted])

theorem Lifecycle.read (h : q.Lifecycle) {k : Nat} {t : StreamAttempt} (hk : q.attempts[k]? = some t)
    (hawait : t.await = .read) {outcome : ReadOutcome}
    (habort : outcome.isChunk = true ∨ (t.aborted = true ↔ outcome = .failed true)) :
    (q.read options k t outcome).Lifecycle := by
  cases outcome with
  | chunk heard =>
    cases heard with
    | false => exact h
    | true => exact ⟨h.live, h.controller, h.stopped⟩
  | done =>
    have hgoing : t.aborted = false := by simpa [ReadOutcome.isChunk] using habort
    exact h.goOn hk (by simp [StreamAttempt.stage, hgoing, hawait]) rfl rfl (by rw [hgoing]; rfl) rfl
  | failed abort =>
    cases abort with
    | true =>
      have haborted : t.aborted = true := by simpa [ReadOutcome.isChunk] using habort
      exact h.goOn_dead hk haborted _
    | false =>
      have hgoing : t.aborted = false := by simpa [ReadOutcome.isChunk] using habort
      exact h.goOn hk (by simp [StreamAttempt.stage, hgoing, hawait]) rfl rfl (by rw [hgoing]; rfl) rfl

theorem Lifecycle.step (h : q.Lifecycle) {now : Nat} {label : SyncManagerLabel} (hcondition : q.AbortEnds (now, label))
    (hq' : q.step options label = some q') : q'.Lifecycle := by
  cases label with
  | connect =>
    cases hq'
    refine Lifecycle.connect (q := { q with stopped := false }) ⟨h.live, h.controller, fun hstopped => ?_⟩ rfl
    cases hstopped
  | disconnect =>
    cases hq'
    exact lifecycle_of_dead h.dead_disconnect rfl fun _ => ⟨rfl, rfl, rfl⟩
  | opened k outcome =>
    simp only [SyncManager.step, Option.bind_eq_bind, Option.bind_eq_some_iff] at hq'
    obtain ⟨t, hk, hq'⟩ := hq'
    split at hq'
    · next hawait =>
      cases hq'
      exact h.opened hk hawait (hcondition t hk)
    · cases hq'
  | read k outcome =>
    simp only [SyncManager.step, Option.bind_eq_bind, Option.bind_eq_some_iff] at hq'
    obtain ⟨t, hk, hq'⟩ := hq'
    split at hq'
    · next hawait =>
      cases hq'
      exact h.read hk hawait (hcondition t hk)
    · cases hq'
  | staleCheck =>
    simp only [SyncManager.step] at hq'
    split at hq'
    · next hinterval =>
      have hgoing : q.stopped = false := by
        cases hstop : q.stopped with
        | false => rfl
        | true => simp [(h.stopped hstop).2.2] at hinterval
      split at hq'
      · cases hq'
        refine lifecycle_of_dead h.dead_disconnect rfl fun hstopped => ?_
        have : q.stopped = true := hstopped
        rw [hgoing] at this
        cases this
      · cases hq'
        exact h
    · cases hq'
  | reconnectTimeout =>
    simp only [SyncManager.step] at hq'
    split at hq'
    · next htimer =>
      cases hq'
      have hgoing : q.stopped = false := by
        cases hstop : q.stopped with
        | false => rfl
        | true => simp [(h.stopped hstop).2.1] at htimer
      refine Lifecycle.connect ⟨h.live, h.controller, fun hstopped => ?_⟩ hgoing
      have : q.stopped = true := hstopped
      rw [hgoing] at this
      cases this
    · cases hq'

end SyncManager

theorem syncManager_lifecycle {options : SyncManagerOptions} {q : SyncManager}
    (h : (syncManager options).ReachableUnder SyncManager.AbortEnds q) : q.Lifecycle := by
  refine h.invariant SyncManager.Lifecycle ?_ fun q a q' _ hlifecycle hcondition hstep => ?_
  · rintro _ rfl
    exact SyncManager.lifecycle_initial
  · simp only [syncManager] at hstep
    split at hstep
    · exact SyncManager.Lifecycle.step (q := { q with clock := a.1 }) ⟨hlifecycle.live, hlifecycle.controller, hlifecycle.stopped⟩
        hcondition hstep
    · cases hstep

/-! ## The manager of the extension -/

/-- An await of the fetch or of the stream ends with an `AbortError` for an attempt that was
aborted, and for no other; what else an aborted attempt waits for does not fail. -/
def ConnectAttempt.Settles (t : ConnectAttempt) (answer : ConnectAnswer) : Prop :=
  match t.await with
  | .events => t.aborted = true ↔ answer = .failed true
  | .read => answer.isChunk = true ∨ (t.aborted = true ↔ answer = .failed true)
  | .clearAlarm | .dispatch _ => t.aborted = true → answer = .resolved
  | _ => True

instance (t : ConnectAttempt) (answer : ConnectAnswer) : Decidable (t.Settles answer) := by
  unfold ConnectAttempt.Settles
  split <;> infer_instance

/-- An await with the stream open. -/
def ConnectAwait.isOpen : ConnectAwait → Bool
  | .clearAlarm | .catchUp _ _ _ | .push | .read | .dispatch _ => true
  | _ => false

theorem ConnectAwait.ne_of_isOpen {await : ConnectAwait} (h : await.isOpen = true) :
    await ≠ .resolveConnectionContext := by
  rintro rfl
  cases h

theorem ConnectAttempt.stage_of_isOpen {t : ConnectAttempt} (hgoing : t.aborted = false) (h : t.await.isOpen = true) :
    t.stage = some true := by
  unfold ConnectAttempt.stage
  rw [hgoing]
  cases hawait : t.await with
  | clearAlarm | catchUp | push | read | dispatch => rfl
  | resolveConnectionContext | events | ended =>
    rw [hawait] at h
    cases h

namespace ExtensionSync

/-- `disconnect` comes neither while an attempt looks for its account nor before an alarm that
went off is handled, and nobody but `initializeSync` connects a revoked session. -/
def Undisturbed (q : ExtensionSync) : ExtensionSyncLabel → Prop
  | .connect => q.revoked = false
  | .disconnect _ | .cleanupSync =>
    q.alarmEvents = 0 ∧ ∀ t ∈ q.attempts, t.await ≠ .resolveConnectionContext
  | .resume k answer => ∀ t ∈ q.attempts[k]?, t.Settles answer
  | _ => True

instance (q : ExtensionSync) : (label : ExtensionSyncLabel) → Decidable (q.Undisturbed label)
  | .connect => inferInstanceAs (Decidable (q.revoked = false))
  | .disconnect _ | .cleanupSync => inferInstanceAs (Decidable
      (q.alarmEvents = 0 ∧ ∀ t ∈ q.attempts, t.await ≠ .resolveConnectionContext))
  | .resume k answer => inferInstanceAs (Decidable (∀ t ∈ q.attempts[k]?, t.Settles answer))
  | .initializeSync | .alarmGoesOff | .handleSyncReconnectAlarm | .setActiveAccount _ | .emit _ _ => .isTrue trivial

structure Lifecycle (q : ExtensionSync) : Prop where
  live : OneLive ConnectAttempt.stage q.attempts q.connectionStatus.live
  controller : ∀ (k : Nat) (t : ConnectAttempt), q.attempts[k]? = some t → t.stage.isSome = true →
    t.await = .resolveConnectionContext ∨ q.abortController = some k
  unaborted : ∀ t ∈ q.attempts, t.await = .resolveConnectionContext → t.aborted = false
  stopped : q.stopped = true → q.connectionStatus = .disconnected ∧ q.alarm = none ∧ q.alarmEvents = 0
  revoked : q.revoked = true → q.stopped = true

/-- What decides about connections is the same. -/
structure SameConnections (q q' : ExtensionSync) : Prop where
  abortController : q'.abortController = q.abortController
  connectionStatus : q'.connectionStatus = q.connectionStatus
  alarm : q'.alarm = q.alarm
  alarmEvents : q'.alarmEvents = q.alarmEvents
  attempts : q'.attempts = q.attempts
  stopped : q'.stopped = q.stopped
  revoked : q'.revoked = q.revoked

variable {q q' : ExtensionSync} {serverUrlOf : String → String}

theorem SameConnections.refl (q : ExtensionSync) : SameConnections q q := ⟨rfl, rfl, rfl, rfl, rfl, rfl, rfl⟩

theorem SameConnections.lifecycle (hsame : SameConnections q q') (h : q.Lifecycle) : q'.Lifecycle := by
  obtain ⟨hcontroller, hstatus, halarm, hevents, hattempts, hstopped, hrevoked⟩ := hsame
  constructor
  · rw [hattempts, hstatus]
    exact h.live
  · rw [hattempts, hcontroller]
    exact h.controller
  · rw [hattempts]
    exact h.unaborted
  · rw [hstopped, hstatus, halarm, hevents]
    exact h.stopped
  · rw [hstopped, hrevoked]
    exact h.revoked

/-- A catch-up decides nothing about connections. -/
theorem catchUpStep_sameConnections {await : CatchUpAwait} {answer : ConnectAnswer} {await' : Option CatchUpAwait}
    (h : q.catchUpStep serverUrlOf await answer = some (q', await')) : SameConnections q q' := by
  unfold catchUpStep at h
  split at h
  case h_1 =>
    split at h <;> cases h <;> exact .refl q
  case h_2 =>
    split at h
    · cases h
    · cases h
      exact .refl q
    · split at h
      · cases h
        exact ⟨rfl, rfl, rfl, rfl, rfl, rfl, rfl⟩
      · cases h
  case h_5 =>
    split at h
    · cases h
      exact .refl q
    · cases h
  case h_6 accountId =>
    cases h
    cases accountId with
    | none => exact .refl q
    | some accountId => exact ⟨rfl, rfl, rfl, rfl, rfl, rfl, rfl⟩
  case h_7 =>
    split at h <;> cases h <;> exact .refl q
  case h_8 =>
    split at h <;> cases h <;> exact ⟨rfl, rfl, rfl, rfl, rfl, rfl, rfl⟩
  case h_13 => cases h
  all_goals
    cases h
    exact ⟨rfl, rfl, rfl, rfl, rfl, rfl, rfl⟩

theorem processFrames_isOpen (q : ExtensionSync) (frames : List SseFrame) : (q.processFrames frames).isOpen = true := by
  induction frames with
  | nil => rfl
  | cons frame rest ih =>
    cases frame with
    | other => exact ih
    | sessionRevoked => rfl
    | sync =>
      unfold processFrames
      cases q.connection with
      | none => exact ih
      | some scope => rfl

theorem afterCatchUp_isOpen (q : ExtensionSync) (next : AfterCatchUp) : (q.afterCatchUp next).isOpen = true := by
  cases next with
  | push => rfl
  | frames rest => exact q.processFrames_isOpen rest

theorem catchUpMissedEvents_isOpen (q : ExtensionSync) : q.catchUpMissedEvents.isOpen = true := by
  unfold catchUpMissedEvents
  cases q.connection <;> rfl

/-- While an attempt is live, nobody has disconnected. -/
theorem Lifecycle.going (h : q.Lifecycle) {k : Nat} {t : ConnectAttempt} (hk : q.attempts[k]? = some t)
    (hlive : t.stage.isSome = true) : q.stopped = false ∧ q.revoked = false := by
  have hstopped : q.stopped = false := by
    cases hstop : q.stopped with
    | false => rfl
    | true =>
      have hdead := h.live
      rw [(h.stopped hstop).1] at hdead
      simp [hdead.dead (List.mem_of_getElem? hk)] at hlive
  refine ⟨hstopped, ?_⟩
  cases hrevoked : q.revoked with
  | false => rfl
  | true =>
    rw [h.revoked hrevoked] at hstopped
    cases hstopped

/-- A live attempt goes on: the status follows it. -/
theorem Lifecycle.goOn (h : q.Lifecycle) {k : Nat} {t : ConnectAttempt} (hk : q.attempts[k]? = some t)
    (hlive : t.stage.isSome = true) {await : ConnectAwait} (hne : await ≠ .resolveConnectionContext)
    (hattempts : q'.attempts = q.attempts) (hcontroller : await = .ended ∨ q'.abortController = some k)
    (hstatus : q'.connectionStatus.live = (ConnectAttempt.mk t.aborted await).stage)
    (hstopped : q'.stopped = q.stopped) (hrevoked : q'.revoked = q.revoked) :
    ({ q' with attempts := q'.attempts.set k { t with await := await } } : ExtensionSync).Lifecycle := by
  obtain ⟨hgoing, hgoing'⟩ := h.going hk hlive
  refine ⟨?_, fun j x hj hx => ?_, fun x hx hawait => ?_, fun hstop => ?_, fun hrev => ?_⟩
  · simp only [hattempts, hstatus]
    exact h.live.set_live hk hlive _
  · simp only [hattempts] at hj
    by_cases hkj : k = j
    · subst hkj
      rw [List.getElem?_set_self (List.getElem?_eq_some_iff.mp hk).1] at hj
      cases hj
      rcases hcontroller with rfl | hcontroller
      · simp [ConnectAttempt.stage] at hx
      · exact .inr hcontroller
    · rw [List.getElem?_set_ne hkj] at hj
      simp [h.live.dead_of_ne hk hlive hj hkj] at hx
  · simp only [hattempts] at hx
    rcases List.mem_or_eq_of_mem_set hx with hx | rfl
    · exact h.unaborted x hx hawait
    · exact absurd hawait hne
  · have : q'.stopped = true := hstop
    rw [hstopped, hgoing] at this
    cases this
  · have : q'.revoked = true := hrev
    rw [hrevoked, hgoing'] at this
    cases this

/-- An attempt that was aborted goes on. -/
theorem Lifecycle.goOn_dead (h : q.Lifecycle) (hsame : SameConnections q q') {k : Nat} {t : ConnectAttempt}
    (hk : q.attempts[k]? = some t) (hdead : t.aborted = true) {await : ConnectAwait}
    (hne : await ≠ .resolveConnectionContext) :
    ({ q' with attempts := q'.attempts.set k { t with await := await } } : ExtensionSync).Lifecycle := by
  have hnone : ∀ await, (ConnectAttempt.mk t.aborted await).stage = none := fun _ => by simp [ConnectAttempt.stage, hdead]
  have h' := hsame.lifecycle h
  rw [← hsame.attempts] at hk
  refine ⟨h'.live.set_dead hk (hnone t.await) (hnone await), fun j x hj hx => ?_, fun x hx hawait => ?_, h'.stopped, h'.revoked⟩
  · by_cases hkj : k = j
    · subst hkj
      simp only [List.getElem?_set_self (List.getElem?_eq_some_iff.mp hk).1] at hj
      cases hj
      simp [hnone] at hx
    · simp only [List.getElem?_set_ne hkj] at hj
      exact h'.controller j x hj hx
  · rcases List.mem_or_eq_of_mem_set hx with hx | rfl
    · exact h'.unaborted x hx hawait
    · exact absurd hawait hne

/-- An attempt with an open stream goes on to another await of it. -/
theorem Lifecycle.goOn_open (h : q.Lifecycle) (hsame : SameConnections q q') {k : Nat} {t : ConnectAttempt}
    (hk : q.attempts[k]? = some t) (hopen : t.await.isOpen = true) {await : ConnectAwait} (hopen' : await.isOpen = true) :
    ({ q' with attempts := q'.attempts.set k { t with await := await } } : ExtensionSync).Lifecycle := by
  cases haborted : t.aborted with
  | true =>
    have hdead := h.goOn_dead hsame hk haborted (ConnectAwait.ne_of_isOpen hopen')
    rwa [haborted] at hdead
  | false =>
    have hstage := ConnectAttempt.stage_of_isOpen haborted hopen
    have hlive : t.stage.isSome = true := by rw [hstage]; rfl
    have hstatus : q.connectionStatus.live = some true :=
      (h.live.status_iff true).mpr ⟨t, List.mem_of_getElem? hk, hstage⟩
    have hgone := h.goOn hk hlive (ConnectAwait.ne_of_isOpen hopen') hsame.attempts
      (.inr (hsame.abortController.trans
        ((h.controller k t hk hlive).resolve_left (ConnectAwait.ne_of_isOpen hopen))))
      (by rw [hsame.connectionStatus, hstatus]
          exact (ConnectAttempt.stage_of_isOpen (t := ⟨t.aborted, await⟩) haborted hopen').symm)
      hsame.stopped hsame.revoked
    rwa [haborted] at hgone

/-- A live attempt ends. -/
theorem Lifecycle.ends (h : q.Lifecycle) {k : Nat} {t : ConnectAttempt} (hk : q.attempts[k]? = some t)
    (hlive : t.stage.isSome = true) {status : ConnectionStatus} (hstatus : status.live = none)
    (hq' : q' = (q.setStatus status).scheduleReconnect ∨ q' = q.setStatus status) :
    ({ q' with attempts := q'.attempts.set k { t with await := .ended } } : ExtensionSync).Lifecycle := by
  have hended : ∀ aborted, (ConnectAttempt.mk aborted .ended).stage = none := fun aborted => by
    cases aborted <;> rfl
  have hsame : q'.attempts = q.attempts ∧ q'.connectionStatus = status ∧ q'.stopped = q.stopped ∧
      q'.revoked = q.revoked := by
    rcases hq' with rfl | rfl
    · unfold scheduleReconnect
      split <;> exact ⟨rfl, rfl, rfl, rfl⟩
    · exact ⟨rfl, rfl, rfl, rfl⟩
  obtain ⟨hattempts, heq, hstopped, hrevoked⟩ := hsame
  exact h.goOn hk hlive (by simp) hattempts (.inl rfl) (by rw [heq, hstatus, hended]) hstopped hrevoked

theorem Lifecycle.resume (h : q.Lifecycle) {k : Nat} {t : ConnectAttempt} (hk : q.attempts[k]? = some t)
    {answer : ConnectAnswer} (hsettles : t.Settles answer) {await : ConnectAwait}
    (hq' : q.resume serverUrlOf k t.await answer = some (q', await)) :
    ({ q' with attempts := q'.attempts.set k { t with await := await } } : ExtensionSync).Lifecycle := by
  have hmem := List.mem_of_getElem? hk
  unfold ConnectAttempt.Settles at hsettles
  cases hawait : t.await with
  | resolveConnectionContext =>
    have hgoing := h.unaborted t hmem hawait
    have hstage : t.stage = some false := by simp [ConnectAttempt.stage, hgoing, hawait]
    have hlive : t.stage.isSome = true := by rw [hstage]; rfl
    rw [hawait] at hq'
    cases answer with
    | context accountId =>
      cases accountId with
      | none =>
        cases hq'
        exact h.ends hk hlive rfl (.inr rfl)
      | some accountId =>
        cases hq'
        have hstatus : q.connectionStatus.live = some false := (h.live.status_iff false).mpr ⟨t, hmem, hstage⟩
        exact h.goOn hk hlive (by simp) rfl (.inr rfl) (hstatus.trans (by rw [hgoing]; rfl)) rfl rfl
    | failed abort =>
      cases hq'
      exact h.ends hk hlive rfl (.inl rfl)
    | _ => cases hq'
  | events =>
    rw [hawait] at hq' hsettles
    have hlive : t.aborted = false → t.stage.isSome = true := fun hgoing => by
      simp [ConnectAttempt.stage, hgoing, hawait]
    cases answer with
    | response ok hasBody =>
      have hgoing : t.aborted = false := by simpa using hsettles
      have hcontroller : q.abortController = some k :=
        (h.controller k t hk (hlive hgoing)).resolve_left (by simp [hawait])
      match ok, hasBody with
      | true, true =>
        cases hq'
        exact h.goOn hk (hlive hgoing) (by simp) rfl (.inr hcontroller) (by rw [hgoing]; rfl) rfl rfl
      | true, false | false, _ =>
        cases hq'
        exact h.ends hk (hlive hgoing) rfl (.inl rfl)
    | failed abort =>
      cases abort with
      | true =>
        cases hq'
        exact h.goOn_dead (.refl q) hk (hsettles.mpr rfl) (by simp)
      | false =>
        cases hq'
        exact h.ends hk (hlive (by simpa using hsettles)) rfl (.inl rfl)
    | _ => cases hq'
  | clearAlarm =>
    rw [hawait] at hq' hsettles
    cases answer with
    | resolved =>
      cases hq'
      exact h.goOn_open (.refl q) hk (by rw [hawait]; rfl) q.catchUpMissedEvents_isOpen
    | failed abort =>
      cases hq'
      have hgoing : t.aborted = false := by simpa using hsettles
      exact h.ends hk (by simp [ConnectAttempt.stage, hgoing, hawait]) rfl (.inl rfl)
    | _ => cases hq'
  | catchUp began c next =>
    rw [hawait] at hq'
    obtain ⟨⟨q'', c'⟩, hstep, heq⟩ := Option.map_eq_some_iff.mp (show _ = some (q', await) from hq')
    cases heq
    refine h.goOn_open (catchUpStep_sameConnections hstep) hk (by rw [hawait]; rfl) ?_
    cases c' with
    | none => exact afterCatchUp_isOpen _ next
    | some c' => rfl
  | push =>
    rw [hawait] at hq'
    cases answer with
    | resolved =>
      cases hq'
      exact h.goOn_open (.refl q) hk (by rw [hawait]; rfl) rfl
    | _ => cases hq'
  | read =>
    rw [hawait] at hq' hsettles
    have hlive : t.aborted = false → t.stage.isSome = true := fun hgoing => by
      simp [ConnectAttempt.stage, hgoing, hawait]
    cases answer with
    | chunk frames =>
      cases hq'
      exact h.goOn_open (.refl q) hk (by rw [hawait]; rfl) (q.processFrames_isOpen frames)
    | done =>
      have hgoing : t.aborted = false := by simpa [ConnectAnswer.isChunk] using hsettles
      cases hq'
      rw [(h.going hk (hlive hgoing)).2]
      exact h.ends hk (hlive hgoing) rfl (.inl rfl)
    | failed abort =>
      cases abort with
      | true =>
        cases hq'
        exact h.goOn_dead (.refl q) hk (by simpa [ConnectAnswer.isChunk] using hsettles) (by simp)
      | false =>
        cases hq'
        have hgoing : t.aborted = false := by simpa [ConnectAnswer.isChunk] using hsettles
        exact h.ends hk (hlive hgoing) rfl (.inl rfl)
    | _ => cases hq'
  | dispatch rest =>
    rw [hawait] at hq' hsettles
    cases answer with
    | resolved =>
      cases hq'
      exact h.goOn_open (.refl q) hk (by rw [hawait]; rfl) (q.processFrames_isOpen rest)
    | failed abort =>
      cases hq'
      have hgoing : t.aborted = false := by simpa using hsettles
      exact h.ends hk (by simp [ConnectAttempt.stage, hgoing, hawait]) rfl (.inl rfl)
    | _ => cases hq'
  | ended =>
    rw [hawait] at hq'
    cases answer <;> cases hq'

theorem live_of_idle (h : ¬ (q.connectionStatus = .connected ∨ q.connectionStatus = .connecting)) :
    q.connectionStatus.live = none := by
  cases hstatus : q.connectionStatus with
  | connecting | connected => simp [hstatus] at h
  | disconnected | reconnecting | error => rfl

theorem Lifecycle.connect (h : q.Lifecycle) (hgoing : q.stopped = false) : q.connect.Lifecycle := by
  unfold ExtensionSync.connect
  split
  · exact h
  · next hidle =>
    have hlive := h.live
    rw [live_of_idle hidle] at hlive
    refine ⟨hlive.start (b := false) rfl, fun k t hk ht => ?_, fun t ht hawait => ?_, fun hstopped => ?_, h.revoked⟩
    · rcases Nat.lt_or_ge k q.attempts.length with hlt | hge
      · rw [List.getElem?_append_left hlt] at hk
        simp [hlive.dead (List.mem_of_getElem? hk)] at ht
      · rw [List.getElem?_append_right hge] at hk
        obtain rfl := List.mem_singleton.mp (List.mem_of_getElem? hk)
        exact .inl rfl
    · rcases List.mem_append.mp ht with ht | ht
      · exact h.unaborted t ht hawait
      · obtain rfl := List.mem_singleton.mp ht
        rfl
    · have : q.stopped = true := hstopped
      rw [hgoing] at this
      cases this

/-- After a `disconnect` nothing is live, unless an attempt looks for its account. -/
theorem Lifecycle.dead_disconnect (h : q.Lifecycle) (hcontext : ∀ t ∈ q.attempts, t.await ≠ .resolveConnectionContext)
    (suppressReconnect : Bool) : ∀ t ∈ (q.disconnect suppressReconnect).attempts, t.stage = none :=
  OneLive.dead_of_killed
    (fun k t hk ht => (h.controller k t hk ht).resolve_left (hcontext t (List.mem_of_getElem? hk)))
    fun t => by simp [ConnectAttempt.stage]

/-- The attempts after a `disconnect` wait for what they waited for. -/
theorem disconnect_await {suppressReconnect : Bool} {t : ConnectAttempt} (ht : t ∈ (q.disconnect suppressReconnect).attempts) :
    ∃ t' ∈ q.attempts, t'.await = t.await := by
  simp only [ExtensionSync.disconnect] at ht
  cases hcontroller : q.abortController with
  | none =>
    rw [hcontroller] at ht
    exact ⟨t, ht, rfl⟩
  | some k =>
    rw [hcontroller] at ht
    obtain ⟨j, hj⟩ := List.mem_iff_getElem?.mp ht
    simp only [Option.elim_some, List.getElem?_modify] at hj
    obtain ⟨x, hx, rfl⟩ := Option.map_eq_some_iff.mp hj
    refine ⟨x, List.mem_of_getElem? hx, ?_⟩
    split <;> rfl

theorem Lifecycle.disconnect (h : q.Lifecycle) (hcontext : ∀ t ∈ q.attempts, t.await ≠ .resolveConnectionContext)
    (suppressReconnect : Bool) (hattempts : q'.attempts = (q.disconnect suppressReconnect).attempts)
    (hstatus : q'.connectionStatus = .disconnected) (halarm : q'.alarm = none) (hevents : q'.alarmEvents = 0)
    (hstopped : q'.stopped = true) : q'.Lifecycle := by
  have hdead : ∀ t ∈ q'.attempts, t.stage = none := by
    rw [hattempts]
    exact h.dead_disconnect hcontext suppressReconnect
  refine ⟨?_, fun k t hk ht => ?_, fun t ht hawait => ?_, fun _ => ⟨hstatus, halarm, hevents⟩, fun _ => hstopped⟩
  · rw [hstatus]
    exact .of_dead hdead
  · simp [hdead t (List.mem_of_getElem? hk)] at ht
  · rw [hattempts] at ht
    obtain ⟨t', ht', hawait'⟩ := disconnect_await ht
    exact absurd (hawait'.trans hawait) (hcontext t' ht')

theorem Lifecycle.step (h : q.Lifecycle) {label : ExtensionSyncLabel} (hcondition : q.Undisturbed label)
    (hq' : q.step serverUrlOf label = some q') : q'.Lifecycle := by
  cases label with
  | connect =>
    cases hq'
    have hrevoked : q.revoked = false := hcondition
    refine Lifecycle.connect ⟨h.live, h.controller, h.unaborted, fun hstopped => ?_, fun hrev => ?_⟩ rfl
    · cases hstopped
    · have : q.revoked = true := hrev
      rw [hrevoked] at this
      cases this
  | initializeSync =>
    cases hq'
    refine Lifecycle.connect ⟨h.live, h.controller, h.unaborted, fun hstopped => ?_, fun hrevoked => ?_⟩ rfl
    · cases hstopped
    · cases hrevoked
  | disconnect suppressReconnect =>
    cases hq'
    exact h.disconnect hcondition.2 suppressReconnect rfl rfl rfl hcondition.1 rfl
  | cleanupSync =>
    cases hq'
    exact h.disconnect hcondition.2 false rfl rfl rfl hcondition.1 rfl
  | alarmGoesOff =>
    simp only [ExtensionSync.step] at hq'
    split at hq'
    · next halarm =>
      cases hq'
      refine ⟨h.live, h.controller, h.unaborted, fun hstopped => ?_, h.revoked⟩
      simp [(h.stopped hstopped).2.1] at halarm
    · cases hq'
  | handleSyncReconnectAlarm =>
    simp only [ExtensionSync.step] at hq'
    split at hq'
    · cases hq'
    · next hevents =>
      have hgoing : q.stopped = false := by
        cases hstop : q.stopped with
        | false => rfl
        | true => exact absurd (h.stopped hstop).2.2 hevents
      have hhandled : ({ q with alarmEvents := q.alarmEvents - 1 } : ExtensionSync).Lifecycle := by
        refine ⟨h.live, h.controller, h.unaborted, fun hstopped => ?_, h.revoked⟩
        have : q.stopped = true := hstopped
        rw [hgoing] at this
        cases this
      cases hq'
      split
      · exact hhandled
      · exact hhandled.connect hgoing
  | resume k answer =>
    simp only [ExtensionSync.step, Option.bind_eq_bind, Option.bind_eq_some_iff, Option.pure_def, Option.some.injEq,
      Prod.exists] at hq'
    obtain ⟨t, hk, q'', await, hresume, rfl⟩ := hq'
    exact h.resume hk (hcondition t hk) hresume
  | setActiveAccount accountId =>
    cases hq'
    exact SameConnections.lifecycle (q := q) ⟨rfl, rfl, rfl, rfl, rfl, rfl, rfl⟩ h
  | emit accountId seq =>
    simp only [ExtensionSync.step] at hq'
    split at hq'
    · cases hq'
      exact SameConnections.lifecycle (q := q) ⟨rfl, rfl, rfl, rfl, rfl, rfl, rfl⟩ h
    · cases hq'

theorem Initial.lifecycle (h : q.Initial) : q.Lifecycle where
  live := by
    rw [h.attempts, h.connectionStatus]
    exact .nil
  controller k t hk _ := by simp [h.attempts] at hk
  unaborted t ht _ := by simp [h.attempts] at ht
  stopped hstopped := by simp [h.stopped] at hstopped
  revoked hrevoked := by simp [h.revoked] at hrevoked

end ExtensionSync

theorem extensionSync_lifecycle {serverUrlOf : String → String} {q : ExtensionSync}
    (h : (extensionSync serverUrlOf).ReachableUnder ExtensionSync.Undisturbed q) : q.Lifecycle :=
  h.invariant ExtensionSync.Lifecycle (fun _ hq => ExtensionSync.Initial.lifecycle hq) fun _ _ _ _ hlifecycle hcondition hstep =>
    hlifecycle.step hcondition hstep

/-! ## What the callers see -/

/-- At most one stream is open; the status is connected only while one is; and while nobody is
to have a connection, none is open, none is scheduled and the status is disconnected. -/
structure ConnectionLaw {α : Type} (stage : α → Option Bool) (attempts : List α) (status : ConnectionStatus)
    (scheduled : Option Nat) (stopped : Bool) : Prop where
  one : ∀ (i j : Nat) (t u : α), attempts[i]? = some t → attempts[j]? = some u → stage t = some true →
    stage u = some true → i = j
  connected : status = .connected → ∃ t ∈ attempts, stage t = some true
  stopped : stopped = true → status = .disconnected ∧ scheduled = none ∧ ∀ t ∈ attempts, stage t ≠ some true

def SyncManager.KeepsLaw (q : SyncManager) : Prop :=
  ConnectionLaw StreamAttempt.stage q.attempts q.connectionStatus q.reconnectTimeout q.stopped

/-- In the extension, also a revoked session is to have no connection. -/
def ExtensionSync.KeepsLaw (q : ExtensionSync) : Prop :=
  ConnectionLaw ConnectAttempt.stage q.attempts q.connectionStatus q.alarm (q.stopped || q.revoked)

theorem ConnectionLaw.of_oneLive {α : Type} {stage : α → Option Bool} {attempts : List α} {status : ConnectionStatus}
    {scheduled : Option Nat} {stopped : Bool} (h : OneLive stage attempts status.live)
    (hstopped : stopped = true → status = .disconnected ∧ scheduled = none) :
    ConnectionLaw stage attempts status scheduled stopped where
  one i j t u hi hj ht hu := h.unique i j t u hi hj (by simp [ht]) (by simp [hu])
  connected hstatus := (h.status_iff true).mp (by rw [hstatus]; rfl)
  stopped hstop := by
    obtain ⟨hstatus, hscheduled⟩ := hstopped hstop
    rw [hstatus] at h
    exact ⟨hstatus, hscheduled, fun t ht => by simp [h.dead ht]⟩

theorem SyncManager.Lifecycle.keepsLaw {q : SyncManager} (h : q.Lifecycle) : q.KeepsLaw :=
  .of_oneLive h.live fun hstopped => ⟨(h.stopped hstopped).1, (h.stopped hstopped).2.1⟩

theorem ExtensionSync.Lifecycle.keepsLaw {q : ExtensionSync} (h : q.Lifecycle) : q.KeepsLaw := by
  refine .of_oneLive h.live fun hstopped => ?_
  have hstop : q.stopped = true := by
    rcases Bool.or_eq_true_iff.mp hstopped with hstop | hrevoked
    · exact hstop
    · exact h.revoked hrevoked
  exact ⟨(h.stopped hstop).1, (h.stopped hstop).2.1⟩

/-- **The connections of both managers.** The law holds in every state of every run in which
aborted attempts end as such and, in the extension, nothing of what was disconnected is left
to come. -/
theorem connections_keep_law (options : SyncManagerOptions) (serverUrlOf : String → String) :
    (∀ q, (syncManager options).ReachableUnder SyncManager.AbortEnds q → q.KeepsLaw) ∧
      ∀ q, (extensionSync serverUrlOf).ReachableUnder ExtensionSync.Undisturbed q → q.KeepsLaw :=
  ⟨fun _ h => (syncManager_lifecycle h).keepsLaw, fun _ h => (extensionSync_lifecycle h).keepsLaw⟩

/-- A worker that has just started, with one account and an empty feed. -/
def exampleWorker : ExtensionSync where
  abortController := none
  connectionStatus := .disconnected
  reconnectAttempt := 0
  connection := none
  syncBaselineValidated := false
  revoked := false
  alarm := none
  alarmEvents := 0
  attempts := []
  cursors _ := none
  activeAccount := some "alice"
  feed _ := []
  head _ := 0
  applied := []
  snapshots := []
  stopped := false

theorem exampleWorker_initial : exampleWorker.Initial where
  abortController := rfl
  connectionStatus := rfl
  connection := rfl
  syncBaselineValidated := rfl
  alarm := rfl
  alarmEvents := rfl
  revoked := rfl
  attempts := rfl
  feed _ _ h := by simp [exampleWorker] at h
  cursors _ _ h := by simp [exampleWorker] at h
  applied _ h := by simp [exampleWorker] at h
  stopped := rfl

/-- Both connect; the server ends the stream of the one, and it connects again; the other is
disconnected. -/
theorem connections_keep_law_connected :
    (∃ q : SyncManager, q.KeepsLaw ∧ q.attempts.length = 2 ∧ q.connectionStatus = .connected) ∧
      ∃ q : ExtensionSync, q.KeepsLaw ∧ q.attempts.length = 1 ∧ q.stopped = true := by
  have hlaw := connections_keep_law {} fun _ => "https://bittery.example"
  constructor
  · have hcheck : ((syncManager {}).runUnder SyncManager.AbortEnds .initial
        [(0, .connect), (1, .opened 0 (.response true true)), (2, .read 0 .done), (1002, .reconnectTimeout),
          (1003, .opened 1 (.response true true))]).any
        (fun q => q.attempts.length = 2 ∧ q.connectionStatus = .connected) = true := by
      decide +kernel
    rw [Option.any_eq_true] at hcheck
    obtain ⟨q, hq, hboth⟩ := hcheck
    exact ⟨q, hlaw.1 q (System.ReachableUnder.runUnder (.init rfl) hq), by simpa using hboth⟩
  · have hcheck : ((extensionSync fun _ => "https://bittery.example").runUnder ExtensionSync.Undisturbed exampleWorker
        [.initializeSync, .resume 0 (.context (some "alice")), .resume 0 (.response true true), .resume 0 .resolved,
          .disconnect false, .resume 0 (.failed true)]).any (fun q => q.attempts.length = 1 ∧ q.stopped = true) = true := by
      decide +kernel
    rw [Option.any_eq_true] at hcheck
    obtain ⟨q, hq, hboth⟩ := hcheck
    exact ⟨q, hlaw.2 q (System.ReachableUnder.runUnder (.init exampleWorker_initial) hq), by simpa using hboth⟩

/-- A `disconnect` while the attempt looks for its account leaves it going: it opens a stream. -/
theorem opened_after_disconnect : ∃ q, (extensionSync fun _ => "https://bittery.example").Reachable q ∧ ¬ q.KeepsLaw := by
  have hcheck : ((extensionSync fun _ => "https://bittery.example").run exampleWorker
      [.initializeSync, .disconnect true, .resume 0 (.context (some "alice")), .resume 0 (.response true true)]).any
      (fun q => q.stopped ∧ q.connectionStatus = .connected) = true := by
    decide +kernel
  rw [Option.any_eq_true] at hcheck
  obtain ⟨q, hq, hboth⟩ := hcheck
  simp only [decide_eq_true_eq] at hboth
  refine ⟨q, .run (.init exampleWorker_initial) hq, fun hlaw => ?_⟩
  have hstatus := (hlaw.stopped (by simp [hboth.1])).1
  rw [hboth.2] at hstatus
  cases hstatus

end Bittery
