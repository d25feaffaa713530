/-
A command whose attempts get no answer: it is given up at its fifth failed attempt, not
before, and until then a drain does not end its pass without having tried it.

The failed attempts of a command are counted in the log, over all engines and restarts.
-/
import Bittery.Client.ItemSyncFacts

namespace Bittery

open Lib

/-! ## What failed attempts make of a command -/

namespace ItemSyncCommand

/-- A command that no attempt was made of, and that has not ended. -/
def Untried (c : ItemSyncCommand) : Prop := c.retryCount = 0 ∧ c.isActiveMutation = true

/-- What `n` failed attempts can have made of a command. -/
structure Survives (n : Nat) (c : ItemSyncCommand) : Prop where
  retryCount : c.retryCount ≤ n
  active : n < MAX_RETRY_COUNT → c.isActiveMutation = true

variable {c : ItemSyncCommand} {n m : Nat} {a : Assignment}

theorem Untried.survives (h : c.Untried) (n : Nat) : c.Survives n := ⟨h.1 ▸ Nat.zero_le n, fun _ => h.2⟩

theorem Survives.mono (h : c.Survives n) (hnm : n ≤ m) : c.Survives m :=
  ⟨Nat.le_trans h.retryCount hnm, fun hm => h.active (Nat.lt_of_le_of_lt hnm hm)⟩

theorem Survives.normalizeMutation (h : c.Survives n) : c.normalizeMutation.Survives n := by
  refine ⟨h.retryCount, fun hn => ?_⟩
  have hactive := h.active hn
  unfold isActiveMutation at hactive ⊢
  cases hs : c.status with
  | none => simp [ItemSyncCommand.normalizeMutation, hs]
  | some status => simpa [ItemSyncCommand.normalizeMutation, hs] using hactive

theorem survives_scheduleRetry (h : c.retryCount ≤ n) (now : Nat) (error : String) :
    (c.scheduleRetry now error).Survives n := by
  unfold scheduleRetry
  split
  · next hmax => exact ⟨h, fun hn => by omega⟩
  · exact ⟨h, fun _ => rfl⟩

theorem retryCount_renewAttempt (suffix : String) : (c.renewAttempt suffix).retryCount = c.retryCount := by
  unfold renewAttempt; split <;> rfl

end ItemSyncCommand

/-- The assignments that end a command, at once or as a conflict. -/
def Assignment.ends : Assignment → Bool
  | .encryptedConflict .. | .chained .. | .failed _ | .projectedConflict | .rebase .. => true
  | _ => false

/-- **An assignment**: a failed attempt counts, and the others neither count nor end the command. -/
theorem ItemSyncCommand.Survives.assign {c : ItemSyncCommand} {n : Nat} {a : Assignment} (h : c.Survives n)
    (ha : a.ends = false) : (c.assign a).Survives (if a.isFailedAttempt then n + 1 else n) := by
  cases a with
  | retry now suffix error =>
    refine ItemSyncCommand.survives_scheduleRetry ?_ now error
    rw [retryCount_renewAttempt]
    exact Nat.succ_le_succ h.retryCount
  | reschedule now error => exact ItemSyncCommand.survives_scheduleRetry (Nat.succ_le_succ h.retryCount) now error
  | applied => exact ⟨h.retryCount, fun _ => rfl⟩
  | activated => exact ⟨h.retryCount, fun _ => rfl⟩
  | preserveFailed error => exact ⟨h.retryCount, h.active⟩
  | claimed claimId expiresAt => exact ⟨h.retryCount, h.active⟩
  | copyId copyId => exact ⟨h.retryCount, h.active⟩
  | entityId realId => exact ⟨h.retryCount, h.active⟩
  | encryptedConflict | chained | failed | projectedConflict | rebase => cases ha

/-- A command that trails an acknowledged one goes on, if its ciphertext need not follow. -/
theorem ItemSyncCommand.Survives.chained {c : ItemSyncCommand} {n version : Nat} (h : c.Survives n)
    (hsealed : c.carriesSealedCiphertext = true → c.baseVersion = version) (copyId suffix : String) :
    (c.assign (.chained version copyId suffix)).Survives n := by
  simp only [ItemSyncCommand.assign, rebaseChainedCommand]
  split
  · exact h
  · next hne =>
    rw [if_neg fun hs => hne (hsealed hs)]
    exact ⟨h.retryCount, fun _ => rfl⟩

/-! ## Runs in which attempts fail only for want of an answer -/

/-- What a call gets does not end the operation: its requests are answered or fail without an
answer, its projections succeed, and it is queued as a new command. -/
def TransportOnly (operation : String) : EngineAwait → QueueAnswer → Prop
  | .request _ _ _ mutation, .response (.error error) =>
    mutation.operation = operation → error.isUnavailable = true
  | .enqueueApply _ command _, .projection outcome | .activateApply command, .projection outcome
  | .restoreApply _ _ command _ _, .projection outcome => command.operation = operation → outcome = .applied
  | .preserveConflict .., .copy (.ok (some copy)) => copy.operation = operation → copy.Untried
  | _, _ => True

instance (c : ItemSyncCommand) : Decidable c.Untried := inferInstanceAs (Decidable (_ ∧ _))

instance (operation : String) (w : EngineAwait) (answer : QueueAnswer) : Decidable (TransportOnly operation w answer) := by
  unfold TransportOnly; split <;> infer_instance

namespace QueueState

variable {ι : Type} [DecidableEq ι]

/-- The failed attempts of an operation. -/
def failedAttempts (q : QueueState ι) (operation : String) : Nat := q.log.count (.attemptFailed operation)

/-- The command that an acknowledgement finds behind the acknowledged one. -/
def trailing (q : QueueState ι) (mutation : ItemSyncCommand) : Option ItemSyncCommand :=
  (q.document.filter fun c => c.operation ≠ mutation.operation).find? fun c =>
    c.entityId = mutation.entityId && c.isActiveMutation

/-- Nothing but failed attempts comes in the operation's way. -/
def OnlyTransportFailures (operation : String) (q : QueueState ι) : QueueLabel ι → Prop
  | .call _ (.enqueue m) _ | .call _ (.stage m _) _ => m.operation = operation → m.Untried
  | .call .. | .crash _ => True
  | .resume i answer s => ((q.engine i).call s.call).all fun w => TransportOnly operation w answer
  | .persist i _ =>
    match (q.engine i).jobs with
    | ⟨_, .acknowledge mutation (some version)⟩ :: _ =>
      ((q.trailing ((q.engine i).command mutation)).all fun c =>
        c.operation ≠ operation || !c.carriesSealedCiphertext || c.baseVersion = version) = true
    | _ => True

instance (operation : String) (q : QueueState ι) (a : QueueLabel ι) : Decidable (q.OnlyTransportFailures operation a) := by
  unfold OnlyTransportFailures
  split <;> try infer_instance
  split <;> infer_instance

/-- What a call waits for does not threaten the operation. -/
def Unthreatened (operation : String) (n : Nat) : EngineAwait → Prop
  | .currentItem _ _ mutation | .reconcile _ _ mutation _ => mutation.operation ≠ operation
  | .restoreLoad document => ∀ c ∈ document, c.operation = operation → c.Survives n
  | _ => True

/-- **The invariant**: every copy of the operation's command is one that the failed attempts can
have left. -/
structure Survives (operation : String) (q : QueueState ι) : Prop where
  objects : ∀ i r, r.operation = operation → ((q.engine i).command r).Survives (q.failedAttempts operation)
  document : ∀ c ∈ q.document, c.operation = operation → c.Survives (q.failedAttempts operation)
  calls : ∀ i call w, (q.engine i).call call = some w → Unthreatened operation (q.failedAttempts operation) w

end QueueState

/-! ## The stretches -/

section Stretches

variable {operation : String} {n : Nat} {s : Surroundings} {e : Engine} {queue : QueueRef} {attempted : List String}
  {mutation : CommandRef} {index : Nat} {caller : EnqueueCaller} {after : AfterConflict} {conflicts : List CommandRef}

/-- An effect that does not end the operation. -/
def Spares (operation : String) (n : Nat) (_ : Engine) : QueueEffect → Prop
  | .push _ c => c.operation = operation → c.Untried
  | .assign r a => r.operation = operation → a.ends = false
  | .load document => ∀ c ∈ document, c.operation = operation → c.Survives n
  | _ => True

/-- A stretch that does not end the operation. -/
def Sparing (operation : String) (n : Nat) (e : Engine) (stretch : Stretch) : Prop :=
  e.Does (Spares operation n) (fun _ => QueueState.Unthreatened operation n) stretch

theorem sparing_persistThen {effects : List QueueEffect} {await : Nat → EngineAwait}
    (heffects : ∀ e : Engine, e.Along (Spares operation n) effects) (hawait : ∀ job, QueueState.Unthreatened operation n (await job)) :
    Sparing operation n e (e.andThen effects (Engine.persistThen await)) := by
  simp only [Sparing, Engine.does_andThen, Engine.does_persistThen]
  exact ⟨heffects e, trivial, hawait _⟩

theorem sparing_endPass (now : Nat) : Sparing operation n e (e.endPass now) := by
  unfold Engine.endPass Engine.drainOnce
  split
  · cases e.queue with
    | none => simp [Sparing, Spares]
    | some queue =>
      cases h : e.findRunnableMutationIndex queue [] now <;> simp [Sparing, Spares, QueueState.Unthreatened, h]
  · simp [Sparing, Spares]

theorem sparing_attemptFailed (error : String) : Sparing operation n e (e.attemptFailed s queue attempted mutation error) :=
  sparing_persistThen (fun _ => ⟨fun _ => rfl, trivial⟩) fun _ => trivial

theorem sparing_drainLoop : Sparing operation n e (e.drainLoop s queue attempted) := by
  unfold Engine.drainLoop
  split
  · exact sparing_endPass _
  · split
    · exact sparing_endPass _
    · split
      · simp [Sparing, Spares, QueueState.Unthreatened]
      · split
        · simp [Sparing, Spares, QueueState.Unthreatened]
        · exact sparing_attemptFailed _

theorem sparing_preserveNext : Sparing operation n e (Engine.preserveNext conflicts) := by
  cases conflicts <;> simp [Engine.preserveNext, Sparing, QueueState.Unthreatened]

theorem sparing_afterConflict : Sparing operation n e (e.afterConflict s after) := by
  cases after with
  | drain queue attempted => exact sparing_drainLoop
  | restore conflicts => exact sparing_preserveNext

theorem sparing_preserveFailed (error : String) : Sparing operation n e (e.preserveFailed mutation after error) :=
  sparing_persistThen (fun _ => ⟨fun _ => rfl, trivial⟩) fun _ => trivial

theorem sparing_enqueued (event : QueueEvent) : Sparing operation n e (e.enqueued s caller event) := by
  cases caller with
  | user => simp [Engine.enqueued, Sparing, Spares]
  | preserveConflict mutation after =>
    simp only [Engine.enqueued, Sparing, Engine.does_andThen]
    exact ⟨⟨trivial, trivial⟩, sparing_afterConflict⟩

theorem untried_enqueueing {m : ItemSyncCommand} (h : m.Untried) : (Engine.enqueueing m).Untried := by
  have hactive := h.2
  refine ⟨h.1, ?_⟩
  unfold ItemSyncCommand.isActiveMutation at hactive
  cases hs : m.status with
  | none => simp [Engine.enqueueing, Engine.terminalStatus, ItemSyncCommand.normalizeMutation,
      ItemSyncCommand.isActiveMutation, hs]
  | some status =>
    cases status <;> simp_all [Engine.enqueueing, Engine.terminalStatus, ItemSyncCommand.normalizeMutation,
      ItemSyncCommand.isActiveMutation]

theorem sparing_enqueue {m : ItemSyncCommand} (h : m.operation = operation → m.Untried) :
    Sparing operation n e (e.enqueue s m caller) := by
  unfold Engine.enqueue
  split
  · exact sparing_enqueued _
  · exact sparing_persistThen (fun _ => ⟨fun hm => untried_enqueueing (h hm), trivial⟩) fun _ => trivial

theorem sparing_stage {m : ItemSyncCommand} {claim : Option (String × Nat)} (h : m.operation = operation → m.Untried) :
    Sparing operation n e (e.stage s m claim) := by
  unfold Engine.stage
  split
  · simp [Sparing, Spares]
  · exact sparing_persistThen (fun _ => ⟨fun hm => ⟨(h hm).1, rfl⟩, trivial⟩) fun _ => trivial

theorem sparing_claimStaged (claimId : String) (leaseMs : Nat) : Sparing operation n e (e.claimStaged s claimId leaseMs) := by
  unfold Engine.claimStaged
  split
  · simp [Sparing]
  · exact sparing_persistThen (fun _ => Engine.along_map fun _ _ _ _ => rfl) fun _ => trivial

theorem sparing_cancel (op claimId : String) : Sparing operation n e (e.cancel op claimId) := by
  unfold Engine.cancel
  split
  · exact sparing_persistThen (fun _ => ⟨trivial, trivial⟩) fun _ => trivial
  · simp [Sparing]

theorem sparing_clear (account : Bool) : Sparing operation n e (e.clear account) := by
  unfold Engine.clear
  split
  · exact sparing_persistThen (fun _ => ⟨trivial, trivial⟩) fun _ => trivial
  · simp [Sparing, Spares, QueueState.Unthreatened]

theorem sparing_drain (now : Nat) : Sparing operation n e (e.drain now) := by
  unfold Engine.drain Engine.drainOnce
  split
  · simp [Sparing, Spares]
  · cases e.queue with
    | none => simp [Sparing, Spares]
    | some queue =>
      cases h : e.findRunnableMutationIndex queue [] now <;> simp [Sparing, Spares, QueueState.Unthreatened, h]

/-- The beginning of a method. -/
theorem sparing_begin {ι : Type} [DecidableEq ι] {q : QueueState ι} {i : ι} {method : QueueCall}
    (h : q.OnlyTransportFailures operation (.call i method s)) : Sparing operation n e (e.begin s method) := by
  cases method with
  | enqueue m => exact sparing_enqueue h
  | stage m claim => exact sparing_stage h
  | claimStaged claimId leaseMs => exact sparing_claimStaged claimId leaseMs
  | activate op claimId =>
    simp only [Engine.begin, Engine.activate]
    split <;> simp [Sparing, QueueState.Unthreatened]
  | cancel op claimId => exact sparing_cancel op claimId
  | restore => simp [Engine.begin, Sparing, QueueState.Unthreatened]
  | drain => exact sparing_drain s.now
  | clear account => exact sparing_clear account

theorem sparing_restoredQueue : Sparing operation n e (e.restoredQueue queue conflicts) := by
  unfold Engine.restoredQueue
  split
  · exact sparing_preserveNext
  · split
    · simp [Sparing, QueueState.Unthreatened]
    · exact sparing_preserveNext

theorem sparing_restoreLoop (changed : Bool) : Sparing operation n e (e.restoreLoop queue index changed conflicts) := by
  unfold Engine.restoreLoop
  split
  · simp [Sparing, QueueState.Unthreatened]
  · split
    · simp [Sparing, Spares, QueueState.Unthreatened]
    · exact sparing_restoredQueue

theorem sparing_andThen_restoreLoop {effects : List QueueEffect} (heffects : e.Along (Spares operation n) effects) :
    Sparing operation n e (e.andThen effects (Engine.restoreLoop queue index true conflicts)) := by
  rw [Sparing, Engine.does_andThen]
  exact ⟨heffects, sparing_restoreLoop true⟩

theorem sparing_restoreApplied {command : CommandRef} {changed : Bool} {outcome : Projection}
    (h : command.operation = operation → outcome = .applied) :
    Sparing operation n e (e.restoreApplied s queue index command changed conflicts outcome) := by
  cases outcome with
  | failed error => exact sparing_andThen_restoreLoop ⟨fun hc => (by cases h hc), trivial⟩
  | conflicted => exact sparing_andThen_restoreLoop ⟨fun hc => (by cases h hc), fun _ => rfl, trivial⟩
  | applied =>
    simp only [Engine.restoreApplied]
    split
    · exact sparing_andThen_restoreLoop ⟨fun _ => rfl, trivial⟩
    · split
      · exact sparing_andThen_restoreLoop ⟨fun _ => rfl, trivial⟩
      · exact sparing_restoreLoop changed

/-- A projection that succeeds. -/
theorem sparing_enqueueApplied {op : String} {command : CommandRef} {outcome : Projection}
    (h : command.operation = operation → outcome = .applied) :
    Sparing operation n e (e.enqueueApplied op command caller outcome) := by
  cases outcome with
  | failed error => exact sparing_persistThen (fun _ => ⟨fun hc => (by cases h hc), trivial⟩) fun _ => trivial
  | conflicted =>
    exact sparing_persistThen (fun _ => ⟨fun hc => (by cases h hc), fun _ => rfl, trivial⟩) fun _ => trivial
  | applied => exact sparing_persistThen (fun _ => ⟨fun _ => rfl, trivial⟩) fun _ => trivial

theorem sparing_activateApplied {command : CommandRef} {outcome : Projection}
    (h : command.operation = operation → outcome = .applied) :
    Sparing operation n e (e.activateApplied command outcome) := by
  cases outcome with
  | failed error => exact sparing_persistThen (fun _ => ⟨fun hc => (by cases h hc), trivial⟩) fun _ => trivial
  | conflicted =>
    exact sparing_persistThen (fun _ => ⟨fun hc => (by cases h hc), fun _ => rfl, trivial⟩) fun _ => trivial
  | applied => exact sparing_persistThen (fun _ => ⟨fun _ => rfl, trivial⟩) fun _ => trivial

theorem sparing_responded (version : Option Nat) (realId : Option String) :
    Sparing operation n e (e.responded queue attempted index mutation version realId) := by
  unfold Engine.responded
  simp only []
  split
  · simp [Sparing, QueueState.Unthreatened]
  · split
    · simp [Sparing, QueueState.Unthreatened]
    · split
      · simp [Sparing, QueueState.Unthreatened]
      · exact sparing_persistThen (fun _ => Engine.along_map fun _ _ _ _ => rfl) fun _ => trivial

/-- A request that gets no answer, or another operation's that is refused. -/
theorem sparing_requestFailed {error : RequestError} (h : mutation.operation = operation → error.isUnavailable = true) :
    Sparing operation n e (e.requestFailed s queue attempted mutation error) := by
  cases error with
  | conflict =>
    have hne : mutation.operation ≠ operation := fun hm => by cases h hm
    simp [Engine.requestFailed, Sparing, Spares, QueueState.Unthreatened, hne]
  | badRequest message => exact sparing_persistThen (fun _ => ⟨fun hm => (by cases h hm), trivial⟩) fun _ => trivial
  | notFound message => exact sparing_persistThen (fun _ => ⟨fun hm => (by cases h hm), trivial⟩) fun _ => trivial
  | unavailable message => exact sparing_attemptFailed message

theorem sparing_preserved {result : Except String (Option ItemSyncCommand)}
    (h : ∀ copy, result = .ok (some copy) → copy.operation = operation → copy.Untried) :
    Sparing operation n e (e.preserved s mutation after result) := by
  cases result with
  | error error => exact sparing_preserveFailed error
  | ok copy =>
    cases copy with
    | none => exact sparing_afterConflict
    | some copy => exact sparing_enqueue (h copy rfl)

theorem sparing_enqueueWritten (op : String) : Sparing operation n e (e.enqueueWritten s op caller) := by
  unfold Engine.enqueueWritten
  split
  · exact sparing_enqueued _
  · split
    · exact sparing_enqueued _
    · simp [Sparing, QueueState.Unthreatened]

theorem sparing_enqueueSettled (op : String) (error : Option String) :
    Sparing operation n e (e.enqueueSettled s op error caller) := by
  cases error with
  | none => exact sparing_enqueued _
  | some error =>
    cases caller with
    | user => simp [Engine.enqueueSettled, Engine.enqueueFailed, Sparing]
    | preserveConflict mutation after => exact sparing_preserveFailed error

theorem sparing_clientAnswered (first : Nat) (result : Except String Unit) :
    Sparing operation n e (e.clientAnswered s queue first result) := by
  cases result with
  | ok => exact sparing_drainLoop
  | error error =>
    simp only [Engine.clientAnswered, Engine.clientFailed]
    split
    · exact sparing_endPass _
    · exact sparing_persistThen (fun _ => ⟨fun _ => rfl, trivial⟩) fun _ => trivial

theorem sparing_acknowledgeAnswered (version : Option Nat) (result : Except String Unit) :
    Sparing operation n e (e.acknowledgeAnswered s queue attempted index mutation version result) := by
  cases result with
  | ok => simp [Engine.acknowledgeAnswered, Engine.acknowledge, Sparing, Spares, QueueState.Unthreatened]
  | error error => exact sparing_attemptFailed error

theorem sparing_acknowledgeWritten (job : Nat) : Sparing operation n e (e.acknowledgeWritten s queue attempted job) := by
  unfold Engine.acknowledgeWritten
  split
  · simp [Sparing, QueueState.Unthreatened]
  · exact sparing_drainLoop

theorem sparing_currentAnswered (h : mutation.operation ≠ operation) (result : Except String (Option Nat)) :
    Sparing operation n e (e.currentAnswered s queue attempted mutation result) := by
  cases result with
  | ok version => simp [Engine.currentAnswered, Sparing, QueueState.Unthreatened, h]
  | error error => exact sparing_persistThen (fun _ => ⟨fun _ => rfl, trivial⟩) fun _ => trivial

theorem sparing_reconcileAnswered (h : mutation.operation ≠ operation) (version : Option Nat) (result : Except String Unit) :
    Sparing operation n e (e.reconcileAnswered s queue attempted mutation version result) :=
  sparing_persistThen (fun _ => ⟨fun hm => absurd hm h, trivial⟩) fun _ => trivial

theorem sparing_afterRefusal : Sparing operation n e (e.afterRefusal s queue attempted mutation) := by
  unfold Engine.afterRefusal
  split
  · simp [Sparing, QueueState.Unthreatened]
  · exact sparing_drainLoop

theorem sparing_restoreLoaded {document : List ItemSyncCommand}
    (h : ∀ c ∈ document, c.operation = operation → c.Survives n) : Sparing operation n e (e.restoreLoaded document) := by
  simp only [Engine.restoreLoaded, Sparing, Engine.does_andThen]
  refine ⟨⟨h, trivial⟩, ?_⟩
  split
  · exact sparing_preserveNext
  · exact sparing_restoreLoop false

/-- What follows an await does not end the operation. -/
theorem sparing_resume {document : List ItemSyncCommand} {w : EngineAwait} {answer : QueueAnswer} {stretch : Stretch}
    (hdocument : ∀ c ∈ document, c.operation = operation → c.Survives n) (hw : QueueState.Unthreatened operation n w)
    (htransport : TransportOnly operation w answer) (h : e.resume s document w answer = some stretch) :
    Sparing operation n e stretch := by
  unfold Engine.resume at h
  split at h <;> cases h
  · exact sparing_enqueueWritten _
  · exact sparing_enqueueApplied htransport
  · exact sparing_enqueueSettled _ _
  · simp [Sparing, Spares]
  · simp [Sparing, Spares]
  · exact sparing_activateApplied htransport
  · simp [Sparing]
  · simp [Sparing]
  · simp [Sparing]
  · refine sparing_preserved fun copy hcopy => ?_
    subst hcopy
    exact htransport
  · exact sparing_afterConflict
  · simp [Sparing, Spares, QueueState.Unthreatened]
  · simpa [Sparing, QueueState.Unthreatened] using hdocument
  · exact sparing_restoreLoaded hw
  · exact sparing_restoreApplied htransport
  · exact sparing_restoredQueue
  · exact sparing_clientAnswered _ _
  · exact sparing_endPass _
  · next result =>
    cases result with
    | ok answer => exact sparing_responded answer.1 answer.2
    | error error => exact sparing_requestFailed htransport
  · simp [Sparing, QueueState.Unthreatened]
  · exact sparing_acknowledgeAnswered _ _
  · exact sparing_acknowledgeWritten _
  · exact sparing_currentAnswered hw _
  · exact sparing_reconcileAnswered hw _ _
  · exact sparing_afterRefusal
  · exact sparing_drainLoop

end Stretches

/-! ## The steps -/

namespace QueueState

variable {ι : Type} [DecidableEq ι] {q q' : QueueState ι} {operation : String} {i : ι} {n m : Nat}

theorem Unthreatened.mono {w : EngineAwait} (h : Unthreatened operation n w) (hnm : n ≤ m) : Unthreatened operation m w := by
  cases w with
  | restoreLoad document => exact fun c hc hop => (h c hc hop).mono hnm
  | currentItem | reconcile => exact h
  | _ => trivial

theorem failedAttempts_applyEffect (x : QueueEffect) :
    q.failedAttempts operation ≤ (q.applyEffect i x).failedAttempts operation := by
  simp only [failedAttempts, applyEffect, List.count_append]
  omega

/-- Another engine, and an engine that changes only in its writes and calls, keeps its objects. -/
theorem Survives.setEngine (h : q.Survives operation) {e : Engine}
    (hobjects : ∀ r, r.operation = operation → (e.command r).Survives (q.failedAttempts operation))
    (hcalls : ∀ call w, e.call call = some w → Unthreatened operation (q.failedAttempts operation) w) :
    (q.setEngine i e).Survives operation where
  objects j r hr := by
    by_cases hj : j = i
    · subst hj; rw [setEngine_self]; exact hobjects r hr
    · rw [setEngine_of_ne hj]; exact h.objects j r hr
  document := h.document
  calls j call w hw := by
    by_cases hj : j = i
    · subst hj; rw [setEngine_self] at hw; exact hcalls call w hw
    · rw [setEngine_of_ne hj] at hw; exact h.calls j call w hw

omit [DecidableEq ι] in
/-- More failed attempts do no harm. -/
theorem Survives.log (h : q.Survives operation) {log : List QueueEvent}
    (hlog : q.failedAttempts operation ≤ log.count (.attemptFailed operation)) :
    ({ q with log := log } : QueueState ι).Survives operation where
  objects j r hr := (h.objects j r hr).mono hlog
  document c hc hop := (h.document c hc hop).mono hlog
  calls j call w hw := (h.calls j call w hw).mono hlog

/-- An assignment that the operation's command survives. -/
theorem Survives.assign {r : CommandRef} {a : Assignment} (h : q.Survives operation)
    (hr : r.operation = operation →
      (((q.engine i).command r).assign a).Survives ((q.applyEffect i (.assign r a)).failedAttempts operation)) :
    (q.applyEffect i (.assign r a)).Survives operation := by
  have hgrows := @failedAttempts_applyEffect _ _ q operation i (.assign r a)
  refine (h.log hgrows).setEngine (fun r' hr' => ?_) fun call w hw => ?_
  · by_cases hrr : r' = r
    · subst hrr
      rw [Engine.command_assign_self]
      exact hr hr'
    · rw [Engine.command_assign_of_ne hrr]
      exact (h.objects i r' hr').mono hgrows
  · rw [Engine.apply_call] at hw
    exact (h.calls i call w hw).mono hgrows

/-- **An effect that spares the operation** keeps the invariant. -/
theorem Survives.applyEffect {x : QueueEffect} (h : q.Survives operation) (hn : n ≤ q.failedAttempts operation)
    (hx : Spares operation n (q.engine i) x) : (q.applyEffect i x).Survives operation := by
  have hgrows := @failedAttempts_applyEffect _ _ q operation i x
  have hcalls : ∀ call w, ((q.engine i).apply x).call call = some w →
      Unthreatened operation ((q.applyEffect i x).failedAttempts operation) w := fun call w hw => by
    rw [Engine.apply_call] at hw
    exact (h.calls i call w hw).mono hgrows
  have hold : ∀ r, r.operation = operation →
      ((q.engine i).command r).Survives ((q.applyEffect i x).failedAttempts operation) := fun r hr =>
    (h.objects i r hr).mono hgrows
  cases x with
  | assign r a =>
    refine h.assign fun hr => ((h.objects i r hr).assign (hx hr)).mono ?_
    split
    · next hfailed =>
      simp only [failedAttempts, QueueState.applyEffect, Engine.events, hfailed, if_true, List.count_append, hr,
        List.count_singleton_self]
      omega
    · exact hgrows
  | push call c =>
    refine (h.log hgrows).setEngine (fun r hr => ?_) hcalls
    rcases @Engine.command_push (q.engine i) c r with hc | hc
    · exact (hc ▸ hold r hr : (((q.engine i).push c).command r).Survives _)
    · have hop : c.operation = operation := by rw [← hc, ((q.engine i).push c).operation_command r, hr]
      exact (hc ▸ (hx hop).survives _ : (((q.engine i).push c).command r).Survives _)
  | load document =>
    refine (h.log hgrows).setEngine (fun r hr => ?_) hcalls
    rcases @Engine.command_load (q.engine i) document r with hc | ⟨c, hc, heq⟩
    · exact (hc ▸ hold r hr : (((q.engine i).load document).command r).Survives _)
    · have hop : c.operation = operation := by
        rw [← c.operation_normalizeMutation, ← heq, ((q.engine i).load document).operation_command r, hr]
      exact (heq ▸ ((hx c hc hop).mono (Nat.le_trans hn hgrows)).normalizeMutation :
        (((q.engine i).load document).command r).Survives _)
  | _ => exact (h.log hgrows).setEngine hold hcalls

/-- **A stretch** that does not end the operation. -/
theorem Survives.runStretch {stretch : Stretch} {call : Nat} (h : q.Survives operation)
    (hs : Sparing operation (q.failedAttempts operation) (q.engine i) stretch) :
    (q.runStretch i call stretch).Survives operation := by
  have hgrown := effects_keep (fun p => p.Survives operation ∧ q.failedAttempts operation ≤ p.failedAttempts operation)
    (fun p x hp hx => ⟨hp.1.applyEffect hp.2 hx, Nat.le_trans hp.2 (failedAttempts_applyEffect x)⟩) ⟨h, Nat.le_refl _⟩ hs.1
  refine hgrown.1.setEngine (fun r hr => hgrown.1.objects i r hr) fun c w hw => ?_
  by_cases hc : c = call
  · subst hc
    simp only [Function.update_self] at hw
    exact (hs.2 w hw).mono hgrown.2
  · simp only [Function.update_of_ne hc] at hw
    exact hgrown.1.calls i c w hw

omit [DecidableEq ι] in
theorem Survives.store (h : q.Survives operation) {document : List ItemSyncCommand}
    (hd : ∀ c ∈ document, c.operation = operation → c.Survives (q.failedAttempts operation)) :
    (q.store document).Survives operation := ⟨h.objects, hd, h.calls⟩

omit [DecidableEq ι] in
/-- The copies of the document are survivors too. -/
theorem Survives.allocate (h : q.Survives operation) {r : CommandRef} (hr : r.operation = operation) :
    (((q.engine i).allocate q.document).1.command r).Survives (q.failedAttempts operation) := by
  rcases @Engine.command_allocate (q.engine i) q.document r with hc | hc
  · rw [hc]
    exact h.objects i r hr
  · exact h.document _ hc (by rw [Engine.operation_command, hr])

/-- The values of objects that survive. -/
theorem survives_map {e : Engine} (h : ∀ r, r.operation = operation → (e.command r).Survives n) (l : List CommandRef) :
    ∀ c ∈ l.map e.command, c.operation = operation → c.Survives n := fun c hc hop => by
  obtain ⟨r, -, rfl⟩ := List.mem_map.mp hc
  exact h r (by rw [← e.operation_command r, hop])

/-- The objects that storage makes. -/
theorem Survives.copies (h : q.Survives operation) :
    (q.setEngine i ((q.engine i).allocate q.document).1).Survives operation :=
  h.setEngine (fun r hr => h.allocate hr) fun call w hw => h.calls i call w (by simpa using hw)

theorem Survives.updateAcknowledged (h : q.Survives operation) {mutation : CommandRef} {serverVersion : Option Nat}
    {s : Surroundings} {id : Nat} {rest : List PersistenceJob}
    (hchained : ∀ version, serverVersion = some version → ∀ c, q.trailing ((q.engine i).command mutation) = some c →
      c.operation = operation → c.carriesSealedCiphertext = true → c.baseVersion = version) :
    (q.updateAcknowledged i mutation serverVersion s id rest).Survives operation := by
  have hcopies := @Survives.copies _ _ _ _ i h
  simp only [QueueState.updateAcknowledged]
  split
  · next version chained hfound =>
    have htrailing : q.trailing ((q.engine i).command mutation) =
        some (((q.engine i).allocate q.document).1.command chained) := by
      rw [trailing, Engine.operation_command, ← Engine.map_filter_allocate, ← Engine.map_chainedCommand, hfound, Option.map_some]
    have hassigned := @Survives.assign _ _ _ operation i chained (.chained version s.copyId s.suffix) hcopies fun hr => by
      rw [setEngine_self]
      refine (((h.allocate hr).chained fun hs => ?_) s.copyId s.suffix).mono
        (@failedAttempts_applyEffect _ _ (q.setEngine i _) operation i _)
      exact hchained version rfl _ htrailing (by rw [Engine.operation_command, hr]) hs
    exact (hassigned.store (survives_map (hassigned.objects i) _)).setEngine (hassigned.objects i) (hassigned.calls i)
  · have hstored := h.store (survives_map (fun r hr => @Survives.allocate _ _ _ i h r hr)
      (((q.engine i).allocate q.document).2.filter fun r => r.operation ≠ mutation.operation))
    exact hstored.setEngine (fun r hr => h.allocate hr) fun call w hw => h.calls i call w (by simpa using hw)

theorem Survives.updateQueue (h : q.Survives operation) (desired : List CommandRef) (known : List ItemSyncCommand) (id : Nat)
    (rest : List PersistenceJob) : (q.updateQueue i desired known id rest).Survives operation := by
  have hstored := h.store (survives_map (fun r hr => @Survives.allocate _ _ _ i h r hr)
    (((q.engine i).allocate q.document).1.mergeQueue desired ((q.engine i).allocate q.document).2 known).entries)
  exact hstored.setEngine (fun r hr => h.allocate hr) fun call w hw => h.calls i call w (by simpa using hw)

/-- **A write** keeps the invariant, unless an acknowledgement moves the revision. -/
theorem Survives.persist (h : q.Survives operation) {s : Surroundings} (hC : q.OnlyTransportFailures operation (.persist i s))
    (hs : q.persist i s = some q') : q'.Survives operation := by
  have hadopt : ∀ reconciled drainRequested rest conflicted,
      (q.setEngine i { q.adopt i reconciled drainRequested rest with conflicted := conflicted }).Survives operation :=
    fun reconciled drainRequested rest conflicted =>
      h.setEngine (fun r hr => by simpa [adopt, Engine.rememberPersistedCommands] using h.objects i r hr) fun call w hw =>
        h.calls i call w (by simpa [adopt, Engine.rememberPersistedCommands] using hw)
  unfold QueueState.persist at hs
  simp only [] at hs
  split at hs <;> cases hs
  · exact h.setEngine (h.objects i) (h.calls i)
  · exact h.updateQueue _ _ _ _
  · exact h.setEngine (h.objects i) (h.calls i)
  · exact hadopt _ _ _ _
  · next id mutation serverVersion rest hjobs =>
    refine h.updateAcknowledged fun version hversion c hc hop hsealed => ?_
    subst hversion
    simpa [OnlyTransportFailures, hjobs, hc, hop, hsealed] using hC
  · exact hadopt _ _ _ _
  · next rest _ =>
    have hstored : (q.store []).Survives operation := h.store fun c hc => absurd hc List.not_mem_nil
    have hcleared := @Survives.setEngine _ _ _ operation i hstored { q.engine i with jobs := rest } (h.objects i) (h.calls i)
    refine hcleared.log ?_
    simp [failedAttempts]

/-- **A step** keeps the invariant. -/
theorem Survives.step {a : QueueLabel ι} (h : q.Survives operation) (hC : q.OnlyTransportFailures operation a)
    (hs : q.step a = some q') : q'.Survives operation := by
  cases a with
  | call j method s =>
    obtain ⟨-, hs⟩ := Option.ite_none_right_eq_some.mp hs
    cases hs
    exact h.runStretch (sparing_begin hC)
  | resume j answer s =>
    simp only [QueueState.step] at hs
    split at hs
    · cases hs
    · next w hw =>
      obtain ⟨-, hs⟩ := Option.ite_none_right_eq_some.mp hs
      obtain ⟨stretch, hstretch, rfl⟩ := Option.map_eq_some_iff.mp hs
      have htransport : TransportOnly operation w answer := by simpa [OnlyTransportFailures, hw] using hC
      exact h.runStretch (sparing_resume h.document (h.calls j _ w hw) htransport hstretch)
  | persist j s => exact h.persist hC hs
  | crash j =>
    cases hs
    refine h.setEngine (fun r _ => ?_) nofun
    exact ItemSyncCommand.Untried.survives ⟨rfl, rfl⟩ _

end QueueState

/-! ## The passes of a drain -/

def AfterConflict.pass : AfterConflict → Option (QueueRef × List String)
  | .drain queue attempted => some (queue, attempted)
  | .restore _ => none

def EnqueueCaller.pass : EnqueueCaller → Option (QueueRef × List String)
  | .user => none
  | .preserveConflict _ after => after.pass

/-- The pass of a drain that an await is part of: its queue, and the operations tried in it. -/
def EngineAwait.pass : EngineAwait → Option (QueueRef × List String)
  | .getClient queue _ => some (queue, [])
  | .request queue attempted _ _ | .rewriteIds queue attempted _ _ _ _ | .acknowledge queue attempted _ _ _
  | .acknowledgeWrite queue attempted _ | .currentItem queue attempted _ | .reconcile queue attempted _ _
  | .refusedWrite queue attempted _ _ | .retryWrite queue attempted _ => some (queue, attempted)
  | .preserveConflict _ after | .preserveFailure _ after => after.pass
  | .enqueueWrite _ _ caller | .enqueueApply _ _ caller | .enqueueSettle _ _ _ caller => caller.pass
  | _ => none

def EngineAwait.isGetClient : EngineAwait → Bool
  | .getClient .. => true
  | _ => false

/-- A stretch that ends a pass: the drain is over, or another pass begins. -/
def Stretch.endsPass (stretch : Stretch) : Bool := stretch.await.all EngineAwait.isGetClient

section Passes

variable {s : Surroundings} {e : Engine} {queue : QueueRef} {attempted : List String} {caller : EnqueueCaller}
  {after : AfterConflict} {mutation : CommandRef}

/-- Nothing that the pass has not tried can be sent, if the stretch ends the pass. -/
def LeavesNothing (s : Surroundings) (queue : QueueRef) (attempted : List String) (e : Engine) (stretch : Stretch) : Prop :=
  stretch.endsPass = true → ∀ index, (e.exec stretch.effects).isRunnable queue attempted s.now index = false

theorem after_of_pass (h : after.pass = some (queue, attempted)) : after = .drain queue attempted := by
  cases after with
  | drain => cases h; rfl
  | restore => cases h

theorem caller_of_pass (h : caller.pass = some (queue, attempted)) :
    ∃ mutation, caller = .preserveConflict mutation (.drain queue attempted) := by
  cases caller with
  | user => cases h
  | preserveConflict mutation after => exact ⟨mutation, by rw [after_of_pass h]⟩

theorem leavesNothing_of_await {effects : List QueueEffect} {w : EngineAwait} (h : w.isGetClient = false) :
    LeavesNothing s queue attempted e ⟨effects, some w⟩ := fun hend => by
  simp [Stretch.endsPass, h] at hend

theorem leavesNothing_persistThen {effects : List QueueEffect} {await : Nat → EngineAwait}
    (h : ∀ job, (await job).isGetClient = false) :
    LeavesNothing s queue attempted e (e.andThen effects (Engine.persistThen await)) := leavesNothing_of_await (h _)

theorem exec_endPass (now : Nat) (index : Nat) :
    (e.exec (e.endPass now).effects).isRunnable queue attempted s.now index = e.isRunnable queue attempted s.now index := by
  unfold Engine.endPass
  split
  · split <;> rfl
  · rfl

theorem leavesNothing_drainLoop : LeavesNothing s queue attempted e (e.drainLoop s queue attempted) := by
  unfold Engine.drainLoop
  split
  · next hnone =>
    intro _ index
    rw [exec_endPass]
    by_cases hindex : index < (e.array queue).length
    · exact Bool.eq_false_iff.mpr (List.find?_eq_none.mp hnone index (List.mem_range.mpr hindex))
    · simp [Engine.isRunnable, List.getElem?_eq_none (Nat.le_of_not_lt hindex)]
  · next index hfound =>
    split
    · next hnone =>
      have hlt := List.mem_range.mp (List.mem_of_find?_eq_some hfound)
      exact absurd hlt (Nat.not_lt.mpr (List.getElem?_eq_none_iff.mp hnone))
    · split
      · exact leavesNothing_of_await rfl
      · split
        · exact leavesNothing_of_await rfl
        · exact leavesNothing_persistThen fun _ => rfl

theorem leavesNothing_afterRefusal : LeavesNothing s queue attempted e (e.afterRefusal s queue attempted mutation) := by
  unfold Engine.afterRefusal
  split
  · exact leavesNothing_of_await rfl
  · exact leavesNothing_drainLoop

/-- The enqueue of a conflict copy, in a drain. -/
theorem leavesNothing_enqueued (event : QueueEvent) :
    LeavesNothing s queue attempted e (e.enqueued s (.preserveConflict mutation (.drain queue attempted)) event) :=
  fun hend index => @leavesNothing_drainLoop s e queue attempted hend index

theorem leavesNothing_preserved (result : Except String (Option ItemSyncCommand)) :
    LeavesNothing s queue attempted e (e.preserved s mutation (.drain queue attempted) result) := by
  cases result with
  | error error => exact leavesNothing_persistThen fun _ => rfl
  | ok copy =>
    cases copy with
    | none => exact leavesNothing_drainLoop
    | some copy =>
      simp only [Engine.preserved, Engine.enqueue]
      split
      · exact leavesNothing_enqueued _
      · exact leavesNothing_persistThen fun _ => rfl

theorem leavesNothing_requestAnswered (index : Nat) (result : Except RequestError (Option Nat × Option String)) :
    LeavesNothing s queue attempted e (e.requestAnswered s queue attempted index mutation result) := by
  cases result with
  | ok answer =>
    simp only [Engine.requestAnswered, Engine.responded]
    split
    · exact leavesNothing_of_await rfl
    · split
      · exact leavesNothing_of_await rfl
      · split
        · exact leavesNothing_of_await rfl
        · exact leavesNothing_persistThen fun _ => rfl
  | error error =>
    cases error with
    | conflict => exact leavesNothing_of_await rfl
    | badRequest message => exact leavesNothing_persistThen fun _ => rfl
    | notFound message => exact leavesNothing_persistThen fun _ => rfl
    | unavailable message => exact leavesNothing_persistThen fun _ => rfl

theorem leavesNothing_enqueueWritten (operation : String) :
    LeavesNothing s queue attempted e (e.enqueueWritten s operation (.preserveConflict mutation (.drain queue attempted))) := by
  have hresolved := @leavesNothing_enqueued s e queue attempted mutation (.resolved s.call operation)
  unfold Engine.enqueueWritten
  split
  · exact hresolved
  · split
    · exact hresolved
    · exact leavesNothing_of_await rfl

theorem leavesNothing_enqueueApplied (operation : String) (command : CommandRef) (outcome : Projection) :
    LeavesNothing s queue attempted e (e.enqueueApplied operation command caller outcome) := by
  cases outcome <;> exact leavesNothing_persistThen fun _ => rfl

theorem leavesNothing_enqueueSettled (operation : String) (error : Option String) :
    LeavesNothing s queue attempted e
      (e.enqueueSettled s operation error (.preserveConflict mutation (.drain queue attempted))) := by
  cases error with
  | none => exact @leavesNothing_enqueued s e queue attempted mutation _
  | some error => exact leavesNothing_persistThen fun _ => rfl

theorem leavesNothing_acknowledgeWritten (job : Nat) :
    LeavesNothing s queue attempted e (e.acknowledgeWritten s queue attempted job) := by
  unfold Engine.acknowledgeWritten
  split
  · exact leavesNothing_of_await rfl
  · exact leavesNothing_drainLoop

/-- **A pass ends only when nothing is left to try in it**, unless there is no client for it. -/
theorem leavesNothing_resume {document : List ItemSyncCommand} {w : EngineAwait} {answer : QueueAnswer} {stretch : Stretch}
    (hpass : w.pass = some (queue, attempted)) (hclient : ∀ error, answer ≠ .client (.error error))
    (h : e.resume s document w answer = some stretch) : LeavesNothing s queue attempted e stretch := by
  unfold Engine.resume at h
  split at h <;> cases h <;> try cases hpass
  · obtain ⟨mutation, rfl⟩ := caller_of_pass hpass
    exact leavesNothing_enqueueWritten _
  · exact leavesNothing_enqueueApplied _ _ _
  · obtain ⟨mutation, rfl⟩ := caller_of_pass hpass
    exact leavesNothing_enqueueSettled _ _
  · obtain rfl := after_of_pass hpass
    exact leavesNothing_preserved _
  · obtain rfl := after_of_pass hpass
    exact leavesNothing_drainLoop
  · next result =>
    cases result with
    | ok => exact leavesNothing_drainLoop
    | error error => exact absurd rfl (hclient error)
  · exact leavesNothing_requestAnswered _ _
  · exact leavesNothing_of_await rfl
  · next result =>
    cases result with
    | ok => exact leavesNothing_of_await rfl
    | error error => exact leavesNothing_persistThen fun _ => rfl
  · exact leavesNothing_acknowledgeWritten _
  · next result =>
    cases result with
    | ok version => exact leavesNothing_of_await rfl
    | error error => exact leavesNothing_persistThen fun _ => rfl
  · exact leavesNothing_persistThen fun _ => rfl
  · exact leavesNothing_afterRefusal
  · exact leavesNothing_drainLoop

end Passes

/-! ## Offline edits -/

namespace QueueState

variable {ι : Type} [DecidableEq ι] {document : List ItemSyncCommand} {operation : String} {q : QueueState ι}

theorem survives_of_reachable (hnew : ∀ c ∈ document, c.operation = operation → c.Untried)
    (h : (outboundQueue ι document).ReachableUnder (OnlyTransportFailures operation) q) : q.Survives operation := by
  refine h.invariant (fun q => q.Survives operation) (fun q hq => ?_) fun q a q' _ hI hC hs => hI.step hC hs
  obtain rfl := hq
  exact ⟨fun _ _ _ => ItemSyncCommand.Untried.survives ⟨rfl, rfl⟩ _, fun c hc hop => (hnew c hc hop).survives _, nofun⟩

/-- The commands that a drain would send now, if it had tried `attempted`. -/
theorem mem_attempted_of_isRunnable_eq_false {e : Engine} {queue : QueueRef} {attempted : List String} {now index : Nat}
    {r : CommandRef} (h : e.isRunnable queue attempted now index = false) (hr : (e.array queue)[index]? = some r)
    (hready : (e.command r).isReadyMutation now = true)
    (hfirst : ∀ earlier ∈ (e.array queue).take index, (e.command earlier).entityId = (e.command r).entityId →
      (e.command earlier).isActiveMutation = false) : r.operation ∈ attempted := by
  have hblocked : ((e.array queue).take index).any (fun earlier =>
      (e.command earlier).entityId = (e.command r).entityId && (e.command earlier).isActiveMutation) = false := by
    rw [List.any_eq_false]
    intro earlier hearlier
    simpa using hfirst earlier hearlier
  simpa [Engine.isRunnable, hr, hready, hblocked] using h

/-- **Offline edits survive, within the limit of retries.** Where nothing but failed attempts comes
in its way, no copy of a command ends before its fifth failed attempt; a drain begins a pass
when there is a command to send, and ends it, if it has a client, only when every command that
is ready and not behind another of its item was tried in it. -/
theorem offline_edit_survives (hnew : ∀ c ∈ document, c.operation = operation → c.Untried)
    (h : (outboundQueue ι document).ReachableUnder (OnlyTransportFailures operation) q) :
    (q.failedAttempts operation < MAX_RETRY_COUNT →
      (∀ c ∈ q.document, c.operation = operation → c.isActiveMutation = true) ∧
      ∀ i r, r ∈ (q.engine i).commands → r.operation = operation → ((q.engine i).command r).isActiveMutation = true) ∧
    (∀ i s queue index, (q.engine i).draining = false → (q.engine i).queue = some queue →
      (q.engine i).isRunnable queue [] s.now index = true → ∀ q', q.step (.call i .drain s) = some q' →
      ∃ first, (q'.engine i).call s.call = some (.getClient queue first)) ∧
    ∀ i answer s w queue attempted, (q.engine i).call s.call = some w → w.pass = some (queue, attempted) →
      (∀ error, answer ≠ .client (.error error)) → ∀ q', q.step (.resume i answer s) = some q' →
      ((q'.engine i).call s.call).all EngineAwait.isGetClient = true →
      ∀ index r, ((q'.engine i).array queue)[index]? = some r →
        ((q'.engine i).command r).isReadyMutation s.now = true →
        (∀ earlier ∈ ((q'.engine i).array queue).take index,
          ((q'.engine i).command earlier).entityId = ((q'.engine i).command r).entityId →
          ((q'.engine i).command earlier).isActiveMutation = false) →
        r.operation ∈ attempted := by
  have hsurvives := survives_of_reachable hnew h
  refine ⟨fun hlimit => ⟨fun c hc hop => (hsurvives.document c hc hop).active hlimit,
    fun i r _ hop => (hsurvives.objects i r hop).active hlimit⟩, ?_, ?_⟩
  · intro i s queue index hidle hqueue hrunnable q' hs
    obtain ⟨-, hs⟩ := Option.ite_none_right_eq_some.mp hs
    cases hs
    have hlt : index < ((q.engine i).array queue).length := by
      rw [Engine.isRunnable] at hrunnable
      cases hr : ((q.engine i).array queue)[index]? with
      | none => simp [hr] at hrunnable
      | some r => exact (List.getElem?_eq_some_iff.mp hr).1
    obtain ⟨first, hfirst⟩ : ∃ first, (q.engine i).findRunnableMutationIndex queue [] s.now = some first := by
      cases hfind : (q.engine i).findRunnableMutationIndex queue [] s.now with
      | some first => exact ⟨first, rfl⟩
      | none => exact absurd hrunnable (List.find?_eq_none.mp hfind index (List.mem_range.mpr hlt))
    refine ⟨first, ?_⟩
    simp [runStretch, Engine.begin, Engine.drain, Engine.drainOnce, hidle, hqueue, hfirst]
  · intro i answer s w queue attempted hw hpass hclient q' hs hend index r hr hready hfirst
    simp only [QueueState.step, hw] at hs
    obtain ⟨-, hs⟩ := Option.ite_none_right_eq_some.mp hs
    obtain ⟨stretch, hstretch, rfl⟩ := Option.map_eq_some_iff.mp hs
    rw [runStretch_engine_self] at hend hr hready hfirst
    simp only [Function.update_self] at hend
    exact mem_attempted_of_isRunnable_eq_false (leavesNothing_resume hpass hclient hstretch hend index) hr hready hfirst

/-! ## An edit made offline -/

def offlineEdit : ItemSyncCommand :=
  { noCommand "edit" with
    type := .update
    entityId := "item"
    vaultId := "vault"
    encryptedPayload := some ⟨"data", "iv", "aes-256-gcm", 2, "user"⟩
    baseVersion := 1
    status := some .pending }

/-- The awaits of one write. -/
def throughWrite : List (QueueLabel Unit) := List.replicate 3 (.persist () ⟨0, 0, "", ""⟩)

def enqueueOffline (m : ItemSyncCommand) : List (QueueLabel Unit) :=
  [.call () (.enqueue m) ⟨0, 0, "", ""⟩] ++ throughWrite ++
    [.resume () .written ⟨0, 0, "", ""⟩, .resume () (.projection .applied) ⟨0, 0, "", ""⟩] ++ throughWrite ++
    [.resume () .written ⟨0, 0, "", ""⟩]

/-- A drain without a network. -/
def drainOffline (now : Nat) : List (QueueLabel Unit) :=
  [.call () .drain ⟨1, now, "", ""⟩, .resume () (.client (.ok ())) ⟨1, now, "", ""⟩,
    .resume () (.response (.error (.unavailable "Network request failed"))) ⟨1, now, "", ""⟩] ++ throughWrite ++
    [.resume () .written ⟨1, now, "", ""⟩]

def freshQueue (document : List ItemSyncCommand) : QueueState Unit := ⟨document, fun _ => newEngine, [], []⟩

/-- Two failed attempts, and the edit goes on. -/
theorem offline_edit_survives_two_attempts : ∃ q : QueueState Unit, q.failedAttempts "edit" = 2 ∧
    (∃ c ∈ q.document, c.operation = "edit") ∧ ∀ c ∈ q.document, c.operation = "edit" → c.isActiveMutation = true := by
  have hrun : ((outboundQueue Unit []).runUnder (OnlyTransportFailures "edit") (freshQueue [])
      (enqueueOffline offlineEdit ++ drainOffline 0 ++ drainOffline 10000)).map
      (fun q => (q.failedAttempts "edit", q.document.map ItemSyncCommand.operation)) = some (2, ["edit"]) := by
    decide +kernel
  obtain ⟨q, hq, hfacts⟩ := Option.map_eq_some_iff.mp hrun
  obtain ⟨hfailed, hdocument⟩ := Prod.mk.inj hfacts
  have hreached := System.ReachableUnder.runUnder (.init rfl) hq
  refine ⟨q, hfailed, ?_, ((offline_edit_survives (fun c hc => by cases hc) hreached).1 (by rw [hfailed]; decide)).1⟩
  have hmem : "edit" ∈ q.document.map ItemSyncCommand.operation := by rw [hdocument]; exact List.mem_cons_self
  exact List.mem_map.mp hmem

/-- Five failed attempts end the edit, though none got an answer. -/
theorem fifth_attempt_ends_offline_edit : ∃ q : QueueState Unit,
    (outboundQueue Unit []).ReachableUnder (OnlyTransportFailures "edit") q ∧
      ∃ c ∈ q.document, c.operation = "edit" ∧ c.status = some .failed := by
  have hrun : ((outboundQueue Unit []).runUnder (OnlyTransportFailures "edit") (freshQueue [])
      (enqueueOffline offlineEdit ++ drainOffline 0 ++ drainOffline 10000 ++ drainOffline 20000 ++ drainOffline 30000 ++
        drainOffline 40000)).map (fun q => q.document.map fun c => (c.operation, c.status)) =
      some [("edit", some .failed)] := by
    decide +kernel
  obtain ⟨q, hq, hdocument⟩ := Option.map_eq_some_iff.mp hrun
  refine ⟨q, System.ReachableUnder.runUnder (.init rfl) hq, ?_⟩
  have hmem : ("edit", some .failed) ∈ q.document.map fun c => (c.operation, c.status) := by
    rw [hdocument]; exact List.mem_cons_self
  obtain ⟨c, hc, heq⟩ := List.mem_map.mp hmem
  exact ⟨c, hc, (Prod.mk.inj heq).1, (Prod.mk.inj heq).2⟩

end QueueState

end Bittery
