/-
The claims on staged commands: `claimStaged`, `activate` and `cancel` of `outbound-queue.ts`, by
engines in several contexts.

A claim is laid on the engine's own objects and then written like any other change; what the
write makes of it is not looked at. So two engines can be given one command, and a claimant can
go on with a command that another one has been given since.
-/
import Bittery.Client.QueueMerge

namespace Bittery

open Lib

/-! ## Claims -/

namespace ItemSyncCommand

/-- Whether a claim can be laid on the command. -/
def isClaimable (c : ItemSyncCommand) (now : Nat) : Bool :=
  c.status = some .staged && !(c.projectionClaimId.any (· ≠ "") && c.projectionClaimExpiresAt.all fun at' => now < at')

/-- What an engine can have made of a command: the claim is still the same, or was given up with an
activation, or had run out by now. -/
structure Follows (now : Nat) (c d : ItemSyncCommand) : Prop where
  staged : d.status = some .staged → c.status = some .staged
  claim : c.isClaimable now = true ∨
    (d.projectionClaimId = c.projectionClaimId ∧ d.projectionClaimExpiresAt = c.projectionClaimExpiresAt) ∨
    (d.status ≠ some .staged ∧ d.projectionClaimId = none)

/-- The claim is on the command, or was given up with an activation. -/
def Held (claimId : String) (expiresAt : Nat) (c : ItemSyncCommand) : Prop :=
  (c.projectionClaimId = some claimId ∧ c.projectionClaimExpiresAt = some expiresAt) ∨
    (c.status ≠ some .staged ∧ c.projectionClaimId = none)

variable {c d : ItemSyncCommand} {now now' expiresAt : Nat} {claimId : String} {a : Assignment}

theorem isClaimable_mono (h : c.isClaimable now = true) (hle : now ≤ now') : c.isClaimable now' = true := by
  simp only [isClaimable, Bool.and_eq_true, decide_eq_true_eq, Bool.not_eq_true', Bool.and_eq_false_iff] at h ⊢
  refine ⟨h.1, h.2.imp_right fun hexpires => ?_⟩
  cases hat : c.projectionClaimExpiresAt with
  | none => simp [hat] at hexpires
  | some at' =>
    simp only [hat, Option.all_some, decide_eq_false_iff_not] at hexpires ⊢
    omega

theorem Follows.mono (h : c.Follows now d) (hle : now ≤ now') : c.Follows now' d :=
  ⟨h.staged, h.claim.imp_left fun hc => isClaimable_mono hc hle⟩

theorem Follows.refl (c : ItemSyncCommand) (now : Nat) : c.Follows now c := ⟨fun h => h, .inr (.inl ⟨rfl, rfl⟩)⟩

theorem follows_normalizeMutation (c : ItemSyncCommand) (now : Nat) : c.Follows now c.normalizeMutation := by
  refine ⟨fun h => ?_, .inr (.inl ⟨rfl, rfl⟩)⟩
  cases hs : c.status with
  | none => simp [normalizeMutation, hs] at h
  | some status => simpa [normalizeMutation, hs] using h

/-- **A claim that has not run out** stays on what follows the command. -/
theorem Held.follows (h : c.Held claimId expiresAt) (hid : claimId ≠ "") (hnow : now < expiresAt) (hd : c.Follows now d) :
    d.Held claimId expiresAt := by
  have hnot : c.isClaimable now = false := by
    rcases h with ⟨hclaim, hexpires⟩ | ⟨hstatus, -⟩
    · simp [isClaimable, hclaim, hexpires, hid, hnow]
    · simp [isClaimable, hstatus]
  rcases hd.claim with hclaimable | ⟨hclaim, hexpires⟩ | hgiven
  · rw [hnot] at hclaimable
    cases hclaimable
  · rcases h with ⟨hc, he⟩ | ⟨hstatus, hc⟩
    · exact .inl ⟨hclaim.trans hc, hexpires.trans he⟩
    · exact .inr ⟨fun hs => hstatus (hd.staged hs), hclaim.trans hc⟩
  · exact .inr hgiven

end ItemSyncCommand

/-- Whether the assignment lays a claim. -/
def Assignment.claims : Assignment → Bool
  | .claimed .. => true
  | _ => false

namespace ItemSyncCommand

variable {c d : ItemSyncCommand} {now expiresAt : Nat} {claimId : String} {a : Assignment}

theorem scheduleRetry_claim (now : Nat) (error : String) : (d.scheduleRetry now error).status ≠ some .staged ∧
    (d.scheduleRetry now error).projectionClaimId = d.projectionClaimId ∧
    (d.scheduleRetry now error).projectionClaimExpiresAt = d.projectionClaimExpiresAt := by
  unfold scheduleRetry
  split <;> exact ⟨fun h => (by cases h), rfl, rfl⟩

/-- The other assignments do not stage a command; they keep its claim, or give it up with an activation. -/
theorem assign_claim (d : ItemSyncCommand) (ha : a.claims = false) :
    ((d.assign a).status = some .staged → d.status = some .staged) ∧
      ((d.assign a).projectionClaimId = d.projectionClaimId ∧
          (d.assign a).projectionClaimExpiresAt = d.projectionClaimExpiresAt ∨
        (d.assign a).status ≠ some .staged ∧ (d.assign a).projectionClaimId = none) := by
  cases a with
  | retry now suffix error =>
    obtain ⟨hstatus, hclaim, hexpires⟩ :=
      @scheduleRetry_claim ({ d with retryCount := d.retryCount + 1 }.renewAttempt suffix) now error
    have hrenew : ∀ e : ItemSyncCommand, (e.renewAttempt suffix).projectionClaimId = e.projectionClaimId ∧
        (e.renewAttempt suffix).projectionClaimExpiresAt = e.projectionClaimExpiresAt := fun e => by
      unfold renewAttempt
      split <;> exact ⟨rfl, rfl⟩
    exact ⟨fun h => absurd h hstatus, .inl ⟨hclaim.trans (hrenew _).1, hexpires.trans (hrenew _).2⟩⟩
  | reschedule now error =>
    obtain ⟨hstatus, hclaim, hexpires⟩ := @scheduleRetry_claim { d with retryCount := d.retryCount + 1 } now error
    exact ⟨fun h => absurd h hstatus, .inl ⟨hclaim, hexpires⟩⟩
  | chained version copyId suffix =>
    simp only [assign, rebaseChainedCommand]
    split
    · exact ⟨fun h => h, .inl ⟨rfl, rfl⟩⟩
    · split <;> exact ⟨fun h => (by cases h), .inl ⟨rfl, rfl⟩⟩
  | rebase version copyId suffix =>
    simp only [assign, rebaseMetadataMutation]
    split
    · exact ⟨fun h => (by cases h), .inl ⟨rfl, rfl⟩⟩
    · split
      · exact ⟨fun h => (by cases h), .inl ⟨rfl, rfl⟩⟩
      · cases version <;> exact ⟨fun h => (by cases h), .inl ⟨rfl, rfl⟩⟩
  | activated => exact ⟨fun h => (by cases h), .inr ⟨fun h => (by cases h), rfl⟩⟩
  | claimed => cases ha
  | preserveFailed | copyId | entityId => exact ⟨fun h => h, .inl ⟨rfl, rfl⟩⟩
  | encryptedConflict | applied | failed | projectedConflict => exact ⟨fun h => (by cases h), .inl ⟨rfl, rfl⟩⟩

theorem Follows.assign (h : c.Follows now d) (ha : a.claims = false) : c.Follows now (d.assign a) := by
  obtain ⟨hstaged, hkept | hgiven⟩ := assign_claim d ha
  · refine ⟨fun hs => h.staged (hstaged hs), h.claim.imp_right (Or.imp ?_ ?_)⟩
    · exact fun ⟨hc, he⟩ => ⟨hkept.1.trans hc, hkept.2.trans he⟩
    · exact fun ⟨hs, hc⟩ => ⟨fun hs' => hs (hstaged hs'), hkept.1.trans hc⟩
  · exact ⟨fun hs => h.staged (hstaged hs), .inr (.inr hgiven)⟩

/-- A claim is laid only on a command on which it can be. -/
theorem Follows.claimed (h : c.Follows now d) (hd : d.isClaimable now = true) (claimId : String) (expiresAt : Nat) :
    c.Follows now (d.assign (.claimed claimId expiresAt)) := by
  have hstatus : d.status = some .staged := by
    simp only [isClaimable, Bool.and_eq_true, decide_eq_true_eq] at hd
    exact hd.1
  refine ⟨h.staged, .inl ?_⟩
  rcases h.claim with hc | ⟨hclaim, hexpires⟩ | ⟨hs, -⟩
  · exact hc
  · simpa only [isClaimable, hclaim, hexpires, hstatus, h.staged hstatus] using hd
  · exact absurd hstatus hs

end ItemSyncCommand

/-! ## Which stretches lay claims -/

/-- Whether `claimStaged` returns. -/
def QueueEffect.grants : QueueEffect → Bool
  | .note (.claimed ..) => true
  | _ => false

/-- Whether the effect lays a claim, or grants it. -/
def QueueEffect.claims : QueueEffect → Bool
  | .assign _ a => a.claims
  | x => x.grants

/-- Whether a document that was read is waited for. -/
def EngineAwait.loads : EngineAwait → Bool
  | .restoreLoad _ => true
  | _ => false

/-- A stretch that neither lays nor grants a claim, and has read no document. -/
def Stretch.Unclaiming (stretch : Stretch) : Prop :=
  (∀ x ∈ stretch.effects, x.claims = false) ∧ stretch.await.any EngineAwait.loads = false

namespace Engine

variable {e : Engine} {s : Surroundings} {queue : QueueRef} {attempted : List String} {mutation : CommandRef} {index : Nat}
  {caller : EnqueueCaller} {after : AfterConflict} {conflicts : List CommandRef} {effects : List QueueEffect}

theorem unclaiming_andThen {rest : Engine → Stretch} :
    (e.andThen effects rest).Unclaiming ↔ (∀ x ∈ effects, x.claims = false) ∧ (rest (e.exec effects)).Unclaiming := by
  simp only [Stretch.Unclaiming, andThen, List.mem_append, or_imp, forall_and, and_assoc]

theorem unclaiming_persistThen {await : Nat → EngineAwait} (hawait : ∀ job, (await job).loads = false) :
    (e.persistThen await).Unclaiming := by
  simp [Stretch.Unclaiming, persistThen, QueueEffect.claims, QueueEffect.grants, hawait]

theorem loads_drainOnce {now : Nat} {w : EngineAwait} (h : e.drainOnce now = some w) : w.loads = false := by
  obtain ⟨queue, -, hw⟩ := Option.bind_eq_some_iff.mp h
  obtain ⟨first, -, rfl⟩ := Option.map_eq_some_iff.mp hw
  rfl

theorem unclaiming_endPass (now : Nat) : (e.endPass now).Unclaiming := by
  unfold endPass
  split
  · split
    · next w hw => simp [Stretch.Unclaiming, QueueEffect.claims, QueueEffect.grants, loads_drainOnce hw]
    · simp [Stretch.Unclaiming, QueueEffect.claims, QueueEffect.grants]
  · simp [Stretch.Unclaiming, QueueEffect.claims, QueueEffect.grants]

theorem unclaiming_assign {r : CommandRef} {a : Assignment} {await : Nat → EngineAwait} (ha : a.claims = false)
    (hawait : ∀ job, (await job).loads = false) : (e.andThen [.assign r a] (persistThen await)).Unclaiming :=
  unclaiming_andThen.mpr ⟨by simpa [QueueEffect.claims, QueueEffect.grants] using ha, unclaiming_persistThen hawait⟩

theorem unclaiming_drainLoop : (e.drainLoop s queue attempted).Unclaiming := by
  unfold drainLoop
  split
  · exact unclaiming_endPass _
  · split
    · exact unclaiming_endPass _
    · simp only []
      split
      · simp [Stretch.Unclaiming, QueueEffect.claims, QueueEffect.grants, EngineAwait.loads]
      · split
        · simp [Stretch.Unclaiming, QueueEffect.claims, QueueEffect.grants, EngineAwait.loads]
        · exact unclaiming_assign rfl fun _ => rfl

theorem unclaiming_preserveNext : (preserveNext conflicts).Unclaiming := by
  cases conflicts <;> simp [preserveNext, Stretch.Unclaiming, EngineAwait.loads]

theorem unclaiming_afterConflict : (e.afterConflict s after).Unclaiming := by
  cases after with
  | drain => exact unclaiming_drainLoop
  | restore => exact unclaiming_preserveNext

theorem unclaiming_enqueued {event : QueueEvent} (h : (QueueEffect.note event).claims = false) :
    (e.enqueued s caller event).Unclaiming := by
  cases caller with
  | user => simpa [enqueued, Stretch.Unclaiming] using h
  | preserveConflict mutation after => exact unclaiming_andThen.mpr ⟨by simpa using h, unclaiming_afterConflict⟩

theorem unclaiming_enqueue (m : ItemSyncCommand) : (e.enqueue s m caller).Unclaiming := by
  unfold enqueue
  split
  · exact unclaiming_enqueued rfl
  · exact unclaiming_andThen.mpr ⟨by simp [QueueEffect.claims, QueueEffect.grants], unclaiming_persistThen fun _ => rfl⟩

theorem unclaiming_restoredQueue : (e.restoredQueue queue conflicts).Unclaiming := by
  unfold restoredQueue
  split
  · exact unclaiming_preserveNext
  · split
    · simp [Stretch.Unclaiming, EngineAwait.loads]
    · exact unclaiming_preserveNext

theorem unclaiming_restoreLoop (changed : Bool) : (e.restoreLoop queue index changed conflicts).Unclaiming := by
  unfold restoreLoop
  split
  · simp [Stretch.Unclaiming, EngineAwait.loads]
  · split
    · exact unclaiming_persistThen fun _ => rfl
    · exact unclaiming_restoredQueue

theorem unclaiming_restoreApplied (command : CommandRef) (changed : Bool) (outcome : Projection) :
    (e.restoreApplied s queue index command changed conflicts outcome).Unclaiming := by
  have hrest : ∀ effects : List QueueEffect, (∀ x ∈ effects, x.claims = false) → ∀ conflicts : List CommandRef,
      (e.andThen effects (restoreLoop queue (index + 1) true conflicts)).Unclaiming :=
    fun effects heffects conflicts => unclaiming_andThen.mpr ⟨heffects, unclaiming_restoreLoop true⟩
  cases outcome with
  | failed error => exact hrest _ (by simp [QueueEffect.claims, QueueEffect.grants, Assignment.claims]) _
  | conflicted => exact hrest _ (by simp [QueueEffect.claims, QueueEffect.grants, Assignment.claims]) _
  | applied =>
    simp only [restoreApplied]
    split
    · exact hrest _ (by simp [QueueEffect.claims, QueueEffect.grants, Assignment.claims]) _
    · split
      · exact hrest _ (by simp [QueueEffect.claims, QueueEffect.grants, Assignment.claims]) _
      · exact unclaiming_restoreLoop changed

theorem unclaiming_responded (version : Option Nat) (realId : Option String) :
    (e.responded queue attempted index mutation version realId).Unclaiming := by
  unfold responded
  simp only []
  split
  · simp [Stretch.Unclaiming, EngineAwait.loads]
  · split
    · simp [Stretch.Unclaiming, EngineAwait.loads]
    · split
      · simp [Stretch.Unclaiming, EngineAwait.loads]
      · refine unclaiming_andThen.mpr ⟨fun x hx => ?_, unclaiming_persistThen fun _ => rfl⟩
        obtain ⟨r, -, rfl⟩ := List.mem_map.mp hx
        rfl

/-- **What follows an await** neither lays nor grants a claim, unless `claimStaged` returns. -/
theorem unclaiming_resume {document : List ItemSyncCommand} {w : EngineAwait} {answer : QueueAnswer} {stretch : Stretch}
    (h : e.resume s document w answer = some stretch) (hw : ∀ claimId claimed job, w ≠ .claimWrite claimId claimed job)
    (hget : w ≠ .restoreGet) : stretch.Unclaiming := by
  unfold resume at h
  split at h <;> cases h
  · next operation _ caller =>
    unfold enqueueWritten
    split
    · exact unclaiming_enqueued rfl
    · split
      · exact unclaiming_enqueued rfl
      · simp [Stretch.Unclaiming, EngineAwait.loads]
  · next outcome => cases outcome <;>
      exact unclaiming_andThen.mpr ⟨by simp [QueueEffect.claims, QueueEffect.grants, Assignment.claims], unclaiming_persistThen fun _ => rfl⟩
  · next error caller =>
    cases error with
    | none => exact unclaiming_enqueued rfl
    | some error =>
      cases caller with
      | user => simp [enqueueSettled, enqueueFailed, Stretch.Unclaiming]
      | preserveConflict => exact unclaiming_assign rfl fun _ => rfl
  · simp [Stretch.Unclaiming, QueueEffect.claims, QueueEffect.grants]
  · exact absurd rfl (hw _ _ _)
  · next outcome => cases outcome <;>
      exact unclaiming_andThen.mpr ⟨by simp [QueueEffect.claims, QueueEffect.grants, Assignment.claims], unclaiming_persistThen fun _ => rfl⟩
  · simp [Stretch.Unclaiming]
  · simp [Stretch.Unclaiming]
  · simp [Stretch.Unclaiming]
  · next result =>
    rcases result with error | _ | copy
    · exact unclaiming_assign rfl fun _ => rfl
    · exact unclaiming_afterConflict
    · exact unclaiming_enqueue copy
  · exact unclaiming_afterConflict
  · simp [Stretch.Unclaiming, QueueEffect.claims, QueueEffect.grants, EngineAwait.loads]
  · exact absurd rfl hget
  · refine unclaiming_andThen.mpr ⟨by simp [QueueEffect.claims, QueueEffect.grants], ?_⟩
    split
    · exact unclaiming_preserveNext
    · exact unclaiming_restoreLoop false
  · exact unclaiming_restoreApplied _ _ _
  · exact unclaiming_restoredQueue
  · next result =>
    cases result with
    | ok => exact unclaiming_drainLoop
    | error error =>
      simp only [clientAnswered, clientFailed]
      split
      · exact unclaiming_endPass _
      · exact unclaiming_assign rfl fun _ => rfl
  · exact unclaiming_endPass _
  · next result =>
    cases result with
    | ok answer => exact unclaiming_responded _ _
    | error error =>
      cases error with
      | conflict => simp [requestAnswered, requestFailed, Stretch.Unclaiming, QueueEffect.claims, QueueEffect.grants, EngineAwait.loads]
      | badRequest message => exact unclaiming_assign rfl fun _ => rfl
      | notFound message => exact unclaiming_assign (by split <;> rfl) fun _ => rfl
      | unavailable message => exact unclaiming_assign rfl fun _ => rfl
  · simp [Stretch.Unclaiming, EngineAwait.loads]
  · next result =>
    cases result with
    | ok => simp [acknowledgeAnswered, acknowledge, Stretch.Unclaiming, QueueEffect.claims, QueueEffect.grants, EngineAwait.loads]
    | error error => exact unclaiming_assign rfl fun _ => rfl
  · unfold acknowledgeWritten
    split
    · simp [Stretch.Unclaiming, EngineAwait.loads]
    · exact unclaiming_drainLoop
  · next result =>
    cases result with
    | ok => simp [currentAnswered, Stretch.Unclaiming, EngineAwait.loads]
    | error error => exact unclaiming_assign rfl fun _ => rfl
  · next result => cases result <;> exact unclaiming_assign rfl fun _ => rfl
  · unfold afterRefusal
    split
    · simp [Stretch.Unclaiming, EngineAwait.loads]
    · exact unclaiming_drainLoop
  · exact unclaiming_drainLoop

/-- `claimStaged` is the method that lays claims. -/
theorem unclaiming_begin {method : QueueCall} (h : ∀ claimId leaseMs, method ≠ .claimStaged claimId leaseMs) :
    (e.begin s method).Unclaiming := by
  cases method with
  | enqueue m => exact unclaiming_enqueue m
  | stage m claim =>
    simp only [begin, stage]
    split
    · simp [Stretch.Unclaiming, QueueEffect.claims, QueueEffect.grants]
    · exact unclaiming_andThen.mpr ⟨by simp [QueueEffect.claims, QueueEffect.grants], unclaiming_persistThen fun _ => rfl⟩
  | claimStaged claimId leaseMs => exact absurd rfl (h claimId leaseMs)
  | activate operation claimId =>
    simp only [begin, activate]
    split <;> simp [Stretch.Unclaiming, EngineAwait.loads]
  | cancel operation claimId =>
    simp only [begin, cancel]
    split
    · exact unclaiming_andThen.mpr ⟨by simp [QueueEffect.claims, QueueEffect.grants], unclaiming_persistThen fun _ => rfl⟩
    · simp [Stretch.Unclaiming]
  | restore => simp [begin, Stretch.Unclaiming, EngineAwait.loads]
  | drain =>
    simp only [begin, drain]
    split
    · simp [Stretch.Unclaiming, QueueEffect.claims, QueueEffect.grants]
    · split
      · next w hw => simp [Stretch.Unclaiming, QueueEffect.claims, QueueEffect.grants, loads_drainOnce hw]
      · simp [Stretch.Unclaiming, QueueEffect.claims, QueueEffect.grants]
  | clear account =>
    simp only [begin, clear]
    split
    · exact unclaiming_andThen.mpr ⟨by simp [QueueEffect.claims, QueueEffect.grants], unclaiming_persistThen fun _ => rfl⟩
    · simp [Stretch.Unclaiming, QueueEffect.claims, QueueEffect.grants, EngineAwait.loads]

end Engine

/-! ## What an engine remembers of its commands -/

/-- A write that has not begun. -/
def Persistence.isWaiting : Persistence → Bool
  | .write | .acknowledge .. | .clear => true
  | .writing .. | .written .. | .acknowledged .. => false

/-- What the next update of the document writes, and what it takes to be there; `own` is what a
write that begins now would. -/
def basisOf (own : List CommandRef × List ItemSyncCommand) : List PersistenceJob → Option (List CommandRef × List ItemSyncCommand)
  | ⟨_, .writing desired known⟩ :: _ => some (desired, known)
  | ⟨_, .written ..⟩ :: _ | ⟨_, .acknowledged ..⟩ :: _ => none
  | _ => some own

/-- What is about to be adopted. -/
def reconcilingOf : List PersistenceJob → List CommandRef
  | ⟨_, .written _ reconciled _⟩ :: _ | ⟨_, .acknowledged reconciled _⟩ :: _ => reconciled
  | _ => []

theorem basisOf_cases (jobs : List PersistenceJob) : (∀ own, basisOf own jobs = some own) ∨ ∃ b, ∀ own, basisOf own jobs = b := by
  rcases jobs with _ | ⟨⟨id, p⟩, rest⟩
  · exact .inl fun _ => rfl
  · cases p with
    | writing | written | acknowledged => exact .inr ⟨_, fun _ => rfl⟩
    | write | acknowledge | clear => exact .inl fun _ => rfl

/-- Writes that wait in the queue come later. -/
theorem basisOf_append (own : List CommandRef × List ItemSyncCommand) (jobs : List PersistenceJob) {p : Persistence} {id : Nat}
    (hp : p.isWaiting = true) : basisOf own (jobs ++ [⟨id, p⟩]) = basisOf own jobs ∧
      reconcilingOf (jobs ++ [⟨id, p⟩]) = reconcilingOf jobs := by
  rcases jobs with _ | ⟨⟨id', p'⟩, rest⟩
  · cases p <;> first | exact ⟨rfl, rfl⟩ | cases hp
  · cases p' <;> exact ⟨rfl, rfl⟩

namespace Engine

/-- Whether the engine remembers an operation, or a write of it does. -/
def remembersAny (e : Engine) (operation : String) : Bool :=
  e.remembers operation || (basisOf (e.commands, e.persisted) e.jobs).any fun b =>
    hasKey ItemSyncCommand.operation operation b.2

/-- Each command follows the one that the engine remembers as stored. -/
def AllFollow (e : Engine) (now : Nat) (refs : List CommandRef) (known : List ItemSyncCommand) : Prop :=
  ∀ r ∈ refs, ∀ k, known.find? (fun c => c.operation = r.operation) = some k → k.Follows now (e.command r)

/-- **The invariant of an engine.** -/
structure Knows (now : Nat) (e : Engine) : Prop where
  follows : ∀ b ∈ basisOf (e.commands, e.persisted) e.jobs, e.AllFollow now b.1 b.2
  reconciling : ((reconcilingOf e.jobs).map CommandRef.operation).Nodup
  waiting : ∀ job ∈ e.jobs.tail, job.persistence.isWaiting = true
  commands : ∀ r ∈ e.commands, r.object < e.nextObject
  adopting : ∀ r ∈ reconcilingOf e.jobs, r.object < e.nextObject
  writing : ∀ b ∈ basisOf (e.commands, e.persisted) e.jobs, ∀ r ∈ b.1, r.object < e.nextObject
  loads : ∀ call document, e.call call = some (.restoreLoad document) → (document.map ItemSyncCommand.operation).Nodup

/-- An effect that keeps the invariant. -/
def Permits (now : Nat) (e : Engine) : QueueEffect → Prop
  | .assign r a => a.claims = false ∨ (e.command r).isClaimable now = true ∨ (e.command r).assign a = e.command r
  | .push _ c => e.remembersAny c.operation = false
  | .load document => (document.map ItemSyncCommand.operation).Nodup
  | _ => True

variable {e e' : Engine} {now now' : Nat} {refs : List CommandRef} {known : List ItemSyncCommand} {x : QueueEffect}
  {r : CommandRef} {c : ItemSyncCommand} {operation : String}

theorem AllFollow.mono (h : e.AllFollow now refs known) (hle : now ≤ now') : e.AllFollow now' refs known :=
  fun r hr k hk => (h r hr k hk).mono hle

theorem Knows.mono (h : e.Knows now) (hle : now ≤ now') : e.Knows now' :=
  { h with follows := fun b hb => (h.follows b hb).mono hle }

/-- The engine after effects that queue writes, at most, and bring no command into the queue that was
not there. -/
theorem Knows.congr (h : e.Knows now) (hjobs : e'.jobs = e.jobs ∨ ∃ p id, e'.jobs = e.jobs ++ [⟨id, p⟩] ∧ p.isWaiting = true)
    (hcommand : ∀ r (k : ItemSyncCommand), k.Follows now (e.command r) → k.Follows now (e'.command r))
    (hcommands : ∀ r ∈ e'.commands, r ∈ e.commands)
    (hpersisted : e'.persisted = e.persisted ∨ e'.commands = [])
    (hnext : e'.nextObject = e.nextObject) (hcall : e'.call = e.call) : e'.Knows now := by
  have hbasis : basisOf (e'.commands, e'.persisted) e'.jobs = basisOf (e'.commands, e'.persisted) e.jobs ∧
      reconcilingOf e'.jobs = reconcilingOf e.jobs ∧ ∀ job ∈ e'.jobs.tail, job.persistence.isWaiting = true := by
    rcases hjobs with hjobs | ⟨p, id, hjobs, hp⟩
    · rw [hjobs]
      exact ⟨rfl, rfl, h.waiting⟩
    · obtain ⟨hb, hr⟩ := @basisOf_append (e'.commands, e'.persisted) e.jobs p id hp
      rw [hjobs]
      refine ⟨hb, hr, fun job hjob => ?_⟩
      cases hcons : e.jobs with
      | nil => simp [hcons] at hjob
      | cons job' rest =>
        rw [hcons, List.cons_append, List.tail_cons, List.mem_append, List.mem_singleton] at hjob
        rcases hjob with hjob | rfl
        · exact h.waiting job (by rw [hcons]; exact hjob)
        · exact hp
  obtain ⟨hbasis, hreconciling, hwaiting⟩ := hbasis
  have hown : ∀ b ∈ basisOf (e'.commands, e'.persisted) e'.jobs, e'.AllFollow now b.1 b.2 ∧ ∀ r ∈ b.1, r.object < e'.nextObject := by
    intro b hb
    rw [hbasis] at hb
    rw [hnext]
    rcases basisOf_cases e.jobs with hdefault | ⟨b', hsame⟩
    · rw [hdefault, Option.mem_some] at hb
      subst hb
      have hold := h.follows _ (by rw [hdefault]; rfl)
      refine ⟨fun r hr k hk => ?_, fun r hr => h.commands r (hcommands r hr)⟩
      rcases hpersisted with hpersisted | hnil
      · exact hcommand r k (hold r (hcommands r hr) k (hpersisted ▸ hk))
      · exact absurd hr (by simp [hnil])
    · have hb' : b ∈ basisOf (e.commands, e.persisted) e.jobs := by rwa [hsame] at hb ⊢
      exact ⟨fun r hr k hk => hcommand r k (h.follows b hb' r hr k hk), h.writing b hb'⟩
  exact ⟨fun b hb => (hown b hb).1, hreconciling ▸ h.reconciling, hwaiting, fun r hr => hnext ▸ h.commands r (hcommands r hr),
    fun r hr => by rw [hnext]; exact h.adopting r (hreconciling ▸ hr), fun b hb => (hown b hb).2,
    fun call document hw => h.loads call document (hcall ▸ hw)⟩

/-! ### Effects -/

/-- A queue out of which commands are taken. -/
theorem commands_setArray {a : QueueRef} {l : List CommandRef} (hl : ∀ r ∈ l, r ∈ e.array a)
    (hr : r ∈ (e.setArray a l).commands) : r ∈ e.commands := by
  unfold commands setArray at hr
  unfold commands
  cases hqueue : e.queue with
  | none => simp [hqueue] at hr
  | some queue =>
    simp only [hqueue, Option.elim_some] at hr ⊢
    by_cases hqa : queue = a
    · subst hqa
      rw [Function.update_self] at hr
      exact hl r hr
    · rwa [Function.update_of_ne hqa] at hr

theorem hasKey_of_find? {known : List ItemSyncCommand} {k : ItemSyncCommand}
    (h : known.find? (fun c => c.operation = operation) = some k) : hasKey ItemSyncCommand.operation operation known = true :=
  hasKey_eq_true.mpr ⟨k, List.mem_of_find?_eq_some h, by simpa using List.find?_some h⟩

theorem Knows.push (h : e.Knows now) (hnew : e.remembersAny c.operation = false) : (e.push c).Knows now := by
  have hcommands : ∀ r ∈ (e.push c).commands, r ∈ e.commands ∨ r = (e.new c).2 := fun r hr => by
    rw [Engine.push, commands_setQueue, sortByTimestamp, List.mem_insertionSort, List.mem_append, List.mem_singleton] at hr
    exact hr
  have hnext : (e.push c).nextObject = e.nextObject + 1 := by
    rw [Engine.push, setQueue]
    split <;> rfl
  have hcall : (e.push c).call = e.call := by
    rw [Engine.push, setQueue]
    split <;> rfl
  have hallocated : ∀ r ∈ (e.push c).commands, r.object < (e.push c).nextObject := fun r hr => by
    rw [hnext]
    rcases hcommands r hr with hr | rfl
    · exact Nat.lt_succ_of_lt (h.commands r hr)
    · exact Nat.lt_succ_self _
  simp only [remembersAny, Bool.or_eq_false_iff] at hnew
  -- The new command follows nothing, for its operation is not remembered.
  have hfollows : ∀ refs known, hasKey ItemSyncCommand.operation c.operation known = false →
      (∀ r ∈ refs, (e.push c).command r = e.command r → ∀ k, known.find? (fun c => c.operation = r.operation) = some k →
        k.Follows now (e.command r)) → (e.push c).AllFollow now refs known := fun refs known hno hold r hr k hk => by
    rcases @command_push e c r with hsame | hpushed
    · exact hsame ▸ hold r hr hsame k hk
    · have hop : c.operation = r.operation := by rw [← hpushed, operation_command]
      rw [hop, hasKey_of_find? hk] at hno
      cases hno
  have hown : ∀ b ∈ basisOf ((e.push c).commands, (e.push c).persisted) (e.push c).jobs,
      (e.push c).AllFollow now b.1 b.2 ∧ ∀ r ∈ b.1, r.object < (e.push c).nextObject := by
    intro b hb
    rw [push_jobs, push_persisted] at hb
    rcases basisOf_cases e.jobs with hdefault | ⟨b', hsame⟩
    · rw [hdefault, Option.mem_some] at hb
      subst hb
      have hold := h.follows _ (by rw [hdefault]; rfl)
      refine ⟨hfollows _ _ hnew.1 fun r hr hcommand k hk => ?_, hallocated⟩
      rcases hcommands r hr with hr | rfl
      · exact hold r hr k hk
      · have hop : hasKey ItemSyncCommand.operation c.operation e.persisted = true := hasKey_of_find? hk
        rw [show hasKey ItemSyncCommand.operation c.operation e.persisted = false from hnew.1] at hop
        cases hop
    · have hb' : b ∈ basisOf (e.commands, e.persisted) e.jobs := by rwa [hsame] at hb ⊢
      refine ⟨hfollows _ _ ?_ fun r hr _ k hk => h.follows b hb' r hr k hk, fun r hr => ?_⟩
      · have hno := hnew.2
        rw [Option.mem_def.mp hb'] at hno
        exact hno
      · rw [hnext]
        exact Nat.lt_succ_of_lt (h.writing b hb' r hr)
  exact ⟨fun b hb => (hown b hb).1, by rw [push_jobs]; exact h.reconciling, by rw [push_jobs]; exact h.waiting, hallocated,
    fun r hr => by rw [hnext]; exact Nat.lt_succ_of_lt (h.adopting r (by rwa [push_jobs] at hr)), fun b hb => (hown b hb).2,
    fun call document hw => h.loads call document (by rwa [hcall] at hw)⟩

theorem Knows.load {document : List ItemSyncCommand} (h : e.Knows now) (hnodup : (document.map ItemSyncCommand.operation).Nodup) :
    (e.load document).Knows now := by
  by_cases hempty : document = []
  · rw [Engine.load, if_pos hempty]
    exact h
  · rw [Engine.load, if_neg hempty]
    generalize hcs : document.map ItemSyncCommand.normalizeMutation = cs
    obtain ⟨-, -, -, hjobs, hcall⟩ := @allocate_frame e cs
    have hnext := @nextObject_le_allocate e cs
    have hmem : ∀ r ∈ (e.allocate cs).1.sortByTimestamp (e.allocate cs).2, r ∈ (e.allocate cs).2 := fun r hr => by
      rwa [sortByTimestamp, List.mem_insertionSort] at hr
    have hcommands : (({ (e.allocate cs).1.newArray ((e.allocate cs).1.sortByTimestamp (e.allocate cs).2) with
        persisted := document } : Engine)).commands = (e.allocate cs).1.sortByTimestamp (e.allocate cs).2 := by
      simp [Engine.commands, newArray]
    have hloaded : ∀ r ∈ (e.allocate cs).2, ∀ k, document.find? (fun c => c.operation = r.operation) = some k →
        k.Follows now ((e.allocate cs).1.command r) := fun r hr k hk => by
      have hvalue : (e.allocate cs).1.command r ∈ cs := by
        have hmap := List.mem_map_of_mem (f := (e.allocate cs).1.command) hr
        rwa [map_command_allocate] at hmap
      rw [← hcs] at hvalue
      obtain ⟨d, hd, heq⟩ := List.mem_map.mp hvalue
      have hop : d.operation = r.operation := by
        rw [← d.operation_normalizeMutation, heq, hcs, operation_command]
      rw [hcs] at heq
      rw [← heq, ← eq_of_find? hnodup hk hd hop]
      exact ItemSyncCommand.follows_normalizeMutation d now
    change ({ (e.allocate cs).1.newArray ((e.allocate cs).1.sortByTimestamp (e.allocate cs).2) with
      persisted := document } : Engine).Knows now
    generalize he' : ({ (e.allocate cs).1.newArray ((e.allocate cs).1.sortByTimestamp (e.allocate cs).2) with
      persisted := document } : Engine) = e' at hcommands ⊢
    have hcommand : e'.command = (e.allocate cs).1.command := by rw [← he']; rfl
    have hpersisted : e'.persisted = document := by rw [← he']
    have hjobs' : e'.jobs = e.jobs := by rw [← he']; exact hjobs
    have hcall' : e'.call = e.call := by rw [← he']; exact hcall
    have hnext' : e'.nextObject = (e.allocate cs).1.nextObject := by rw [← he']; rfl
    have hallocated : ∀ r ∈ e'.commands, r.object < e'.nextObject := fun r hr => by
      rw [hcommands] at hr
      rw [hnext']
      exact object_lt_allocate (hmem r hr)
    have hown : ∀ b ∈ basisOf (e'.commands, e'.persisted) e'.jobs,
        e'.AllFollow now b.1 b.2 ∧ ∀ r ∈ b.1, r.object < e'.nextObject := by
      intro b hb
      rw [hjobs'] at hb
      rcases basisOf_cases e.jobs with hdefault | ⟨b', hsame⟩
      · rw [hdefault, Option.mem_some] at hb
        subst hb
        refine ⟨fun r hr k hk => ?_, hallocated⟩
        rw [hcommand]
        exact hloaded r (hmem r (hcommands ▸ hr)) k (hpersisted ▸ hk)
      · have hb' : b ∈ basisOf (e.commands, e.persisted) e.jobs := by rwa [hsame] at hb ⊢
        refine ⟨fun r hr k hk => ?_, fun r hr => ?_⟩
        · rw [hcommand, command_allocate_of_lt (h.writing b hb' r hr)]
          exact h.follows b hb' r hr k hk
        · rw [hnext']
          exact Nat.lt_of_lt_of_le (h.writing b hb' r hr) hnext
    exact ⟨fun b hb => (hown b hb).1, hjobs' ▸ h.reconciling, hjobs' ▸ h.waiting, hallocated,
      fun r hr => hnext' ▸ Nat.lt_of_lt_of_le (h.adopting r (hjobs' ▸ hr)) hnext, fun b hb => (hown b hb).2,
      fun call document hw => h.loads call document (hcall' ▸ hw)⟩

/-- **An effect keeps the invariant.** -/
theorem Knows.apply (h : e.Knows now) (hx : e.Permits now x) : (e.apply x).Knows now := by
  have hsame : ∀ r (k : ItemSyncCommand), k.Follows now (e.command r) → k.Follows now (e.command r) := fun _ _ hk => hk
  have hschedule : ∀ p : Persistence, p.isWaiting = true → ∃ p' id,
      (e.schedule p).jobs = e.jobs ++ [⟨id, p'⟩] ∧ p'.isWaiting = true := fun p hp => ⟨p, e.nextJob, rfl, hp⟩
  cases x with
  | push call c => exact h.push hx
  | load document => exact h.load hx
  | assign r a =>
    refine h.congr (.inl rfl) (fun r' k hk => ?_) (fun _ hr => hr) (.inl rfl) rfl rfl
    by_cases hr : r' = r
    · subst hr
      rw [command_assign_self]
      rcases hx with ha | hclaimable | hequal
      · exact hk.assign ha
      · cases ha : a.claims with
        | false => exact hk.assign ha
        | true =>
          cases a with
          | claimed claimId expiresAt => exact hk.claimed hclaimable claimId expiresAt
          | _ => cases ha
      · rwa [hequal]
    · rwa [command_assign_of_ne hr]
  | cancel queue operation =>
    exact h.congr (.inl rfl) hsame (fun r hr => commands_setArray (fun r hr => List.mem_of_mem_eraseIdx hr) hr) (.inl rfl) rfl rfl
  | acknowledge queue index mutation serverVersion =>
    exact h.congr (.inr ⟨_, _, rfl, rfl⟩) hsame (fun r hr => commands_setArray (fun r hr => List.mem_of_mem_eraseIdx hr) hr)
      (.inl rfl) rfl rfl
  | persist => exact h.congr (.inr (hschedule .write rfl)) hsame (fun _ hr => hr) (.inl rfl) rfl rfl
  | clearStored => exact h.congr (.inr (hschedule .clear rfl)) hsame (fun _ hr => hr) (.inl rfl) rfl rfl
  | deleteQueue => exact h.congr (.inl rfl) hsame (fun r hr => absurd hr List.not_mem_nil) (.inl rfl) rfl rfl
  | clearMaps => exact h.congr (.inl rfl) hsame (fun r hr => absurd hr List.not_mem_nil) (.inr rfl) rfl rfl
  | setDraining => exact h.congr (.inl rfl) hsame (fun _ hr => hr) (.inl rfl) rfl rfl
  | requestDrain => exact h.congr (.inl rfl) hsame (fun _ hr => hr) (.inl rfl) rfl rfl
  | note event => exact h

/-! ### Stretches -/

variable {s : Surroundings} {stretch : Stretch} {P : Engine → QueueEffect → Prop} {xs : List QueueEffect}

theorem along_of_forall (h : ∀ x ∈ xs, ∀ e, P e x) : Along P e xs := by
  induction xs generalizing e with
  | nil => trivial
  | cons x xs ih => exact ⟨h x List.mem_cons_self e, ih fun y hy => h y (List.mem_cons_of_mem x hy)⟩

theorem Plain.permitted (h : e.Plain stretch) (hu : stretch.Unclaiming) : Along (Permits now) e stretch.effects := by
  have hlocal : ∀ x ∈ stretch.effects, x.isLocal = true ∨ x = .persist := by
    cases h with
    | rest hlocal => exact fun x hx => .inl (hlocal x hx)
    | write hlocal =>
      intro x hx
      rcases List.mem_append.mp hx with hx | hx
      · exact .inl (hlocal x hx)
      · exact .inr (List.mem_singleton.mp hx)
  refine along_of_forall fun x hx e => ?_
  rcases hlocal x hx with hx' | rfl
  · cases x with
    | assign r a => exact .inl (hu.1 _ hx)
    | setDraining | requestDrain | note => trivial
    | _ => cases hx'
  · trivial

/-- What may be queued: an operation that the engine has, or does not remember. -/
def Fresh (e : Engine) (operation : String) : Prop := e.hasOperation operation = false → e.remembersAny operation = false

theorem Resumes.permitted {w : EngineAwait} {answer : QueueAnswer} (h : e.Resumes s w answer stretch) (hu : stretch.Unclaiming)
    (hknows : e.Knows now) {call : Nat} (hcall : e.call call = some w)
    (hcopy : ∀ copy, answer = .copy (.ok (some copy)) → e.Fresh copy.operation) :
    Along (Permits now) e stretch.effects := by
  have hthen : ∀ (x : QueueEffect) (rest : Stretch), (Then x rest).Unclaiming → rest.Unclaiming :=
    fun x rest h => ⟨fun y hy => h.1 y (List.mem_cons_of_mem x hy), h.2⟩
  cases h with
  | plain h => exact h.permitted hu
  | enqueued hrest => exact ⟨trivial, hrest.permitted (hthen _ _ hu)⟩
  | settled hrest => exact ⟨trivial, hrest.permitted (hthen _ _ hu)⟩
  | staged => exact ⟨trivial, trivial⟩
  | copyFound _ hrest => exact ⟨trivial, hrest.permitted (hthen _ _ hu)⟩
  | @copyPushed mutation after copy hnew => exact ⟨hcopy copy rfl hnew, trivial, trivial⟩
  | acknowledged => exact ⟨trivial, trivial⟩
  | restored => exact ⟨trivial, trivial⟩
  | loaded hrest => exact ⟨hknows.loads call _ hcall, hrest.permitted (hthen _ _ hu)⟩

/-- Claims are laid on commands on which they can be. -/
theorem along_claims {claimId : String} {expiresAt : Nat} (h : ∀ r ∈ refs, (e.command r).isClaimable now = true ∨
    (e.command r).assign (.claimed claimId expiresAt) = e.command r) :
    Along (Permits now) e (refs.map fun r => .assign r (.claimed claimId expiresAt)) := by
  induction refs generalizing e with
  | nil => trivial
  | cons r refs ih =>
    refine ⟨.inr (h r List.mem_cons_self), ih fun r' hr' => ?_⟩
    by_cases hrr : r' = r
    · subst hrr
      right
      rw [command_assign_self]
      rfl
    · rw [command_assign_of_ne hrr]
      exact h r' (List.mem_cons_of_mem r hr')

theorem permitted_begin {method : QueueCall}
    (hfresh : ∀ m, (method = .enqueue m ∨ ∃ claim, method = .stage m claim) → e.Fresh m.operation) :
    Along (Permits s.now) e (e.begin s method).effects := by
  by_cases hclaims : ∃ claimId leaseMs, method = .claimStaged claimId leaseMs
  · obtain ⟨claimId, leaseMs, rfl⟩ := hclaims
    simp only [begin, claimStaged]
    split
    · trivial
    · simp only [andThen, persistThen, along_append]
      exact ⟨along_claims fun r hr => .inl (List.mem_filter.mp hr).2, trivial, trivial⟩
  · have hu : (e.begin s method).Unclaiming := unclaiming_begin fun claimId leaseMs h => hclaims ⟨claimId, leaseMs, h⟩
    have hbegins := @begins_of_begin e s method
    generalize e.begin s method = stretch at hu hbegins
    cases hbegins with
    | plain h => exact h.permitted hu
    | found => exact ⟨trivial, trivial⟩
    | @enqueued m hnew => exact ⟨hfresh m (.inl rfl) hnew, trivial, trivial⟩
    | @staged m c claim hnew hop =>
      refine ⟨?_, trivial, trivial⟩
      show e.remembersAny c.operation = false
      rw [hop]
      exact hfresh m (.inr ⟨claim, rfl⟩) hnew
    | cancelled => exact ⟨trivial, trivial, trivial⟩
    | restored => trivial
    | cleared => exact ⟨trivial, trivial, trivial⟩
    | clearedAll => exact ⟨trivial, trivial, trivial, trivial⟩

end Engine

/-! ## Claimants -/

/-- The engines with a clock, and the claims by which calls activate commands. -/
structure ClaimState (ι : Type) where
  queue : QueueState ι
  clock : Nat
  activating : ι → Nat → String

def QueueLabel.now {ι : Type} : QueueLabel ι → Option Nat
  | .call _ _ s | .resume _ _ s | .persist _ s => some s.now
  | .crash _ => none

namespace QueueState

variable {ι : Type} (q : QueueState ι)

/-- `claimStaged` has returned the command, with a claim up to a time. -/
def Granted (claimId operation : String) (expiresAt : Nat) : Prop :=
  ∃ commands, .claimed claimId commands ∈ q.log ∧
    ∃ c ∈ commands, c.operation = operation ∧ c.projectionClaimExpiresAt = some expiresAt

/-- `claimStaged` has returned the command, with a claim that has not run out. -/
def GrantedAt (now : Nat) (claimId operation : String) : Prop := ∃ expiresAt, q.Granted claimId operation expiresAt ∧ now < expiresAt

/-- The document has the command, with the claim on it. -/
def Carries (claimId operation : String) : Prop :=
  ∃ d ∈ q.document, d.operation = operation ∧ d.projectionClaimId = some claimId

end QueueState

namespace ClaimState

variable {ι : Type} [DecidableEq ι] (t : ClaimState ι)

/-- The time after a step. -/
def timeAfter (a : QueueLabel ι) : Nat := a.now.getD t.clock

/-- A step at a time that is not before the last one. -/
def step (a : QueueLabel ι) : Option (ClaimState ι) :=
  if t.timeAfter a < t.clock then none
  else
    (t.queue.step a).map fun q =>
      { queue := q
        clock := t.timeAfter a
        activating :=
          match a with
          | .call i (.activate _ claimId) s => Function.update t.activating i (Function.update (t.activating i) s.call claimId)
          | _ => t.activating }

/-- The claim by which a step activates or cancels a command, and the command's operation. -/
def settles : QueueLabel ι → Option (String × String)
  | .call i (.cancel operation claimId) _ =>
    ((t.queue.engine i).claimedCommand operation claimId).map fun _ => (claimId, operation)
  | .resume i (.projection _) s =>
    match (t.queue.engine i).call s.call with
    | some (.activateApply command) => some (t.activating i s.call, command.operation)
    | _ => none
  | _ => none

/-- The operation that a step queues, unless the engine has it. -/
def queues : QueueLabel ι → Option (ι × String)
  | .call i (.enqueue m) _ | .call i (.stage m _) _ => some (i, m.operation)
  | .resume i (.copy (.ok (some copy))) _ => some (i, copy.operation)
  | _ => none

/-- What `claimStaged` returns. -/
def returns : QueueLabel ι → Option (String × List ItemSyncCommand)
  | .resume i .written s =>
    match (t.queue.engine i).call s.call with
    | some (.claimWrite claimId claimed _) => some (claimId, claimed)
    | _ => none
  | _ => none

/-- What a step writes into the document, and what it takes to be there. -/
def updates : QueueLabel ι → Option (List CommandRef × List ItemSyncCommand)
  | .persist i _ =>
    match (t.queue.engine i).jobs with
    | ⟨_, .writing desired known⟩ :: _ => some (desired, known)
    | _ => none
  | _ => none

/-- **When claims are exclusive.** What `claimStaged` returns has the claim in the document too. So has
what is activated or cancelled by a claim, or this claim was returned and has not run out. And an
operation is queued once. -/
structure Backed (t : ClaimState ι) (a : QueueLabel ι) : Prop where
  returns : ∀ r ∈ t.returns a, r.1 ≠ "" ∧ ∀ c ∈ r.2, ∃ d ∈ t.queue.document,
    d.operation = c.operation ∧ d.projectionClaimId = some r.1 ∧ d.projectionClaimExpiresAt = c.projectionClaimExpiresAt
  settles : ∀ p ∈ t.settles a, t.queue.Carries p.1 p.2 ∨ t.queue.GrantedAt (t.timeAfter a) p.1 p.2
  queues : ∀ p ∈ queues a, (t.queue.engine p.1).Fresh p.2
  updates : ∀ w ∈ t.updates a, ∀ r ∈ w.1, hasKey ItemSyncCommand.operation r.operation w.2 = false →
    hasKey ItemSyncCommand.operation r.operation t.queue.document = false ∧ r.operation ∉ t.queue.left

/-- **The invariant.** -/
structure Guarded (t : ClaimState ι) : Prop where
  nodup : (t.queue.document.map ItemSyncCommand.operation).Nodup
  knows : ∀ i, (t.queue.engine i).Knows t.clock
  granted : ∀ claimId operation expiresAt, t.queue.Granted claimId operation expiresAt →
    claimId ≠ "" ∧ (hasKey ItemSyncCommand.operation operation t.queue.document = true ∨ operation ∈ t.queue.left)
  held : ∀ claimId operation expiresAt, t.queue.Granted claimId operation expiresAt → t.clock < expiresAt →
    ∀ d ∈ t.queue.document, d.operation = operation → d.Held claimId expiresAt
  exclusive : ∀ operation claimId expiresAt claimId' expiresAt', t.queue.Granted claimId operation expiresAt →
    t.queue.Granted claimId' operation expiresAt' → t.clock < expiresAt → t.clock < expiresAt' → claimId = claimId'

end ClaimState

/-- Engines in several contexts, and those who claim their commands. -/
def claimants (ι : Type) [DecidableEq ι] : System (ClaimState ι) (QueueLabel ι) where
  init t := t.queue.log = [] ∧ (t.queue.document.map ItemSyncCommand.operation).Nodup ∧ ∀ i, t.queue.engine i = newEngine
  step t a := t.step a

/-! ### The steps -/

namespace Engine

variable {e : Engine} {now : Nat} {xs : List QueueEffect}

theorem Knows.exec (h : e.Knows now) (hxs : e.Along (Permits now) xs) : (e.exec xs).Knows now := by
  induction xs generalizing e with
  | nil => exact h
  | cons x xs ih => exact ih (h.apply hxs.1) hxs.2

theorem knows_newEngine : newEngine.Knows now where
  follows b hb r hr := by
    obtain rfl := Option.some.inj hb
    cases hr
  reconciling := List.nodup_nil
  waiting job hjob := by cases hjob
  commands r hr := by cases hr
  adopting r hr := by cases hr
  writing b hb r hr := by
    obtain rfl := Option.some.inj hb
    cases hr
  loads call document hw := by cases hw

/-- A call goes on, or ends. -/
theorem Knows.setCall (h : e.Knows now) (call : Nat) (await : Option EngineAwait)
    (hloads : ∀ document, await = some (.restoreLoad document) → (document.map ItemSyncCommand.operation).Nodup) :
    ({ e with call := Function.update e.call call await } : Engine).Knows now where
  follows := h.follows
  reconciling := h.reconciling
  waiting := h.waiting
  commands := h.commands
  adopting := h.adopting
  writing := h.writing
  loads call' document hw := by
    by_cases hc : call' = call
    · subst hc
      simp only [Function.update_self] at hw
      exact hloads document hw
    · simp only [Function.update_of_ne hc] at hw
      exact h.loads call' document hw

end Engine

namespace QueueState

variable {ι : Type} [DecidableEq ι] {q : QueueState ι} {i : ι} {xs : List QueueEffect} {x : QueueEffect}
  {claimId operation : String} {expiresAt : Nat}

/-- An effect that does not grant makes no grant. -/
theorem claimed_mem_effects {commands : List ItemSyncCommand} (hxs : ∀ x ∈ xs, x.grants = false)
    (h : .claimed claimId commands ∈ (xs.foldl (applyEffect i) q).log) : .claimed claimId commands ∈ q.log := by
  induction xs generalizing q with
  | nil => exact h
  | cons x xs ih =>
    have hmem := ih (fun y hy => hxs y (List.mem_cons_of_mem x hy)) h
    have hx := hxs x List.mem_cons_self
    rcases List.mem_append.mp hmem with hevent | hold
    · exfalso
      cases x with
      | note event =>
        obtain rfl := List.mem_singleton.mp hevent
        cases hx
      | assign r a =>
        simp only [Engine.events] at hevent
        split at hevent <;> split at hevent <;> simp at hevent
      | _ => simp [Engine.events] at hevent
    · exact hold

end QueueState

namespace ClaimState

variable {ι : Type} [DecidableEq ι] {t t' : ClaimState ι} {q : QueueState ι} {i : ι} {s : Surroundings} {stretch : Stretch}
  {call now : Nat} {claimId operation : String} {expiresAt : Nat}

omit [DecidableEq ι] in
/-- **The document changes**: each entry follows the one that was there, or is of an operation that the
document has never had. -/
theorem Guarded.follow (h : t.Guarded) (hclock : t.clock ≤ t'.clock)
    (hnodup : (t'.queue.document.map ItemSyncCommand.operation).Nodup)
    (hfollows : ∀ d' ∈ t'.queue.document, (∃ d ∈ t.queue.document, d.operation = d'.operation ∧ d.Follows t'.clock d') ∨
      hasKey ItemSyncCommand.operation d'.operation t.queue.document = false ∧ d'.operation ∉ t.queue.left)
    (hleft : ∀ operation, hasKey ItemSyncCommand.operation operation t.queue.document = true ∨ operation ∈ t.queue.left →
      hasKey ItemSyncCommand.operation operation t'.queue.document = true ∨ operation ∈ t'.queue.left)
    (hgranted : ∀ claimId operation expiresAt, t'.queue.Granted claimId operation expiresAt →
      t.queue.Granted claimId operation expiresAt)
    (hknows : ∀ i, (t'.queue.engine i).Knows t'.clock) : t'.Guarded where
  nodup := hnodup
  knows := hknows
  granted claimId operation expiresAt hg := by
    obtain ⟨hid, hthere⟩ := h.granted claimId operation expiresAt (hgranted _ _ _ hg)
    exact ⟨hid, hleft operation hthere⟩
  held claimId operation expiresAt hg hnow d' hd' hop := by
    obtain ⟨hid, hthere⟩ := h.granted claimId operation expiresAt (hgranted _ _ _ hg)
    rcases hfollows d' hd' with ⟨d, hd, hdop, hfollows⟩ | ⟨hnot, hnever⟩
    · exact (h.held claimId operation expiresAt (hgranted _ _ _ hg) (Nat.lt_of_le_of_lt hclock hnow) d hd
        (hdop.trans hop)).follows hid hnow hfollows
    · rw [hop] at hnot hnever
      rcases hthere with hthere | hthere
      · rw [hnot] at hthere
        cases hthere
      · exact absurd hthere hnever
  exclusive operation claimId expiresAt claimId' expiresAt' hg hg' hnow hnow' :=
    h.exclusive operation claimId expiresAt claimId' expiresAt' (hgranted _ _ _ hg) (hgranted _ _ _ hg')
      (Nat.lt_of_le_of_lt hclock hnow) (Nat.lt_of_le_of_lt hclock hnow')

omit [DecidableEq ι] in
/-- The document stays. -/
theorem Guarded.stay (h : t.Guarded) (hclock : t.clock ≤ t'.clock) (hdocument : t'.queue.document = t.queue.document)
    (hleft : t'.queue.left = t.queue.left)
    (hgranted : ∀ claimId operation expiresAt, t'.queue.Granted claimId operation expiresAt →
      t.queue.Granted claimId operation expiresAt)
    (hknows : ∀ i, (t'.queue.engine i).Knows t'.clock) : t'.Guarded := by
  refine h.follow hclock (hdocument ▸ h.nodup) (fun d' hd' => .inl ⟨d', hdocument ▸ hd', rfl, .refl d' _⟩) ?_ hgranted hknows
  rw [hdocument, hleft]
  exact fun _ h => h

/-- The engines after a change of one of them. -/
theorem knows_setEngine {e : Engine} (h : ∀ j, (t.queue.engine j).Knows t.clock) (hclock : t.clock ≤ now)
    (hothers : ∀ j, j ≠ i → q.engine j = t.queue.engine j) (hself : q.engine i = e) (he : e.Knows now) (j : ι) :
    (q.engine j).Knows now := by
  by_cases hj : j = i
  · subst hj
    rwa [hself]
  · rw [hothers j hj]
    exact (h j).mono hclock

/-- **A stretch that grants nothing.** -/
theorem Guarded.runStretch (h : t.Guarded) (hclock : t.clock ≤ now) (hxs : (t.queue.engine i).Along (Engine.Permits now) stretch.effects)
    (hloads : ∀ document, stretch.await = some (.restoreLoad document) → (document.map ItemSyncCommand.operation).Nodup)
    (hgrants : ∀ x ∈ stretch.effects, x.grants = false) (activating : ι → Nat → String) :
    Guarded ⟨t.queue.runStretch i call stretch, now, activating⟩ := by
  have hstored := @QueueState.effects_document _ _ t.queue i stretch.effects
  refine h.stay hclock hstored.1 hstored.2 (fun claimId operation expiresAt hg => ?_) fun j => ?_
  · obtain ⟨commands, hlog, hc⟩ := hg
    exact ⟨commands, QueueState.claimed_mem_effects hgrants hlog, hc⟩
  · exact knows_setEngine h.knows hclock (fun j hj => QueueState.runStretch_engine_of_ne hj call stretch)
      (QueueState.runStretch_engine_self call stretch) ((((h.knows i).mono hclock).exec hxs).setCall call stretch.await hloads) j

omit [DecidableEq ι] in
/-- The entry that carries a claim is the only one of its operation. -/
theorem Guarded.held_of_carried (h : t.Guarded) {d d' : ItemSyncCommand} (hd : d ∈ t.queue.document) (hop : d.operation = operation)
    (hclaim : d.projectionClaimId = some claimId) (hexpires : d.projectionClaimExpiresAt = some expiresAt)
    (hd' : d' ∈ t.queue.document) (hop' : d'.operation = operation) : d'.Held claimId expiresAt := by
  rw [List.inj_on_of_nodup_map h.nodup hd' hd (hop'.trans hop.symm)]
  exact .inl ⟨hclaim, hexpires⟩

omit [DecidableEq ι] in
/-- **Who holds a claim that has not run out** is the one whose claim is in the document. -/
theorem Guarded.holder (h : t.Guarded) (hcarries : t.queue.Carries claimId operation) {claimId' : String}
    (hg : t.queue.Granted claimId' operation expiresAt) (hnow : t.clock < expiresAt) : claimId' = claimId := by
  obtain ⟨d, hd, hop, hclaim⟩ := hcarries
  rcases h.held claimId' operation expiresAt hg hnow d hd hop with ⟨hclaim', -⟩ | ⟨-, hnone⟩
  · rw [hclaim'] at hclaim
    exact Option.some.inj hclaim
  · rw [hnone] at hclaim
    cases hclaim

/-- **`claimStaged` returns**: the document carries the claims that it grants. -/
theorem Guarded.grants (h : t.Guarded) (hclock : t.clock ≤ now) {claimed : List ItemSyncCommand} (hid : claimId ≠ "")
    (hbacked : ∀ c ∈ claimed, ∃ d ∈ t.queue.document, d.operation = c.operation ∧ d.projectionClaimId = some claimId ∧
      d.projectionClaimExpiresAt = c.projectionClaimExpiresAt) (activating : ι → Nat → String) :
    Guarded ⟨t.queue.runStretch i call ⟨[.note (.claimed claimId claimed)], none⟩, now, activating⟩ := by
  have hgranted : ∀ claimId' operation expiresAt,
      (t.queue.runStretch i call ⟨[.note (.claimed claimId claimed)], none⟩).Granted claimId' operation expiresAt →
      t.queue.Granted claimId' operation expiresAt ∨ claimId' = claimId ∧
        ∃ d ∈ t.queue.document, d.operation = operation ∧ d.projectionClaimId = some claimId ∧
          d.projectionClaimExpiresAt = some expiresAt := by
    rintro claimId' operation expiresAt ⟨commands, hlog, c, hc, hop, hexpires⟩
    rcases List.mem_cons.mp (show _ ∈ QueueEvent.claimed claimId claimed :: t.queue.log from hlog) with heq | hlog
    · cases heq
      obtain ⟨d, hd, hdop, hclaim, hdexpires⟩ := hbacked c hc
      exact .inr ⟨rfl, d, hd, hdop.trans hop, hclaim, hdexpires.trans hexpires⟩
    · exact .inl ⟨commands, hlog, c, hc, hop, hexpires⟩
  have hknows := knows_setEngine h.knows hclock
    (fun j hj => QueueState.runStretch_engine_of_ne hj call ⟨[.note (.claimed claimId claimed)], none⟩)
    (QueueState.runStretch_engine_self call ⟨[.note (.claimed claimId claimed)], none⟩)
    (((h.knows i).mono hclock).setCall call none fun _ h => by cases h)
  refine ⟨h.nodup, hknows, fun claimId' operation expiresAt hg => ?_, fun claimId' operation expiresAt hg hnow d' hd' hop' => ?_,
    fun operation a expiresAt b expiresAt' ha hb hnow hnow' => ?_⟩
  · rcases hgranted _ _ _ hg with hold | ⟨rfl, d, hd, hop, -⟩
    · exact h.granted _ _ _ hold
    · exact ⟨hid, .inl (hasKey_eq_true.mpr ⟨d, hd, hop⟩)⟩
  · rcases hgranted _ _ _ hg with hold | ⟨rfl, d, hd, hop, hclaim, hexpires⟩
    · exact h.held _ _ _ hold (Nat.lt_of_le_of_lt hclock hnow) d' hd' hop'
    · exact h.held_of_carried hd hop hclaim hexpires hd' hop'
  · have holder : ∀ b expiresAt', t.queue.Granted b operation expiresAt' → now < expiresAt' →
        t.queue.Carries claimId operation → b = claimId := fun b expiresAt' hb hnow' hcarries =>
      h.holder hcarries hb (Nat.lt_of_le_of_lt hclock hnow')
    rcases hgranted _ _ _ ha with holda | ⟨rfl, d, hd, hop, hclaim, -⟩ <;>
      rcases hgranted _ _ _ hb with holdb | ⟨rfl, d', hd', hop', hclaim', -⟩
    · exact h.exclusive operation a expiresAt b expiresAt' holda holdb (Nat.lt_of_le_of_lt hclock hnow)
        (Nat.lt_of_le_of_lt hclock hnow')
    · exact holder a expiresAt holda hnow ⟨d', hd', hop', hclaim'⟩
    · exact (holder b expiresAt' holdb hnow' ⟨d, hd, hop, hclaim⟩).symm
    · rfl

/-! ### Writes -/

variable {id : Nat} {p : Persistence} {rest : List PersistenceJob} {desired reconciled : List CommandRef}
  {known : List ItemSyncCommand}

theorem basisOf_waiting (own : List CommandRef × List ItemSyncCommand) (h : ∀ job ∈ rest, job.persistence.isWaiting = true) :
    basisOf own rest = some own ∧ reconcilingOf rest = [] := by
  cases rest with
  | nil => exact ⟨rfl, rfl⟩
  | cons job rest =>
    obtain ⟨id, p⟩ := job
    have hp := h ⟨id, p⟩ List.mem_cons_self
    cases p <;> first | exact ⟨rfl, rfl⟩ | cases hp

omit [DecidableEq ι] in
/-- The write is through: what was reconciled is the queue, and remembered as it is. -/
theorem knows_adopt (h : (t.queue.engine i).Knows now) (hjobs : (t.queue.engine i).jobs = ⟨id, p⟩ :: rest)
    (hreconciling : reconcilingOf (t.queue.engine i).jobs = reconciled) {e : Engine} (he : e.commands = reconciled)
    (hpersisted : e.persisted = reconciled.map e.command) (hrest : e.jobs = rest)
    (hnext : e.nextObject = (t.queue.engine i).nextObject) (hcall : e.call = (t.queue.engine i).call) : e.Knows now := by
  have hwaiting : ∀ job ∈ rest, job.persistence.isWaiting = true := fun job hjob => h.waiting job (by rw [hjobs]; exact hjob)
  obtain ⟨hbasis, hnothing⟩ := @basisOf_waiting rest (e.commands, e.persisted) hwaiting
  have hallocated : ∀ r ∈ e.commands, r.object < e.nextObject := fun r hr => by
    rw [hnext]
    exact h.adopting r (by rw [hreconciling, ← he]; exact hr)
  refine ⟨fun b hb => ?_, by rw [hrest, hnothing]; exact List.nodup_nil, fun job hjob => ?_, hallocated, fun r hr => ?_, fun b hb => ?_,
    fun call document hw => h.loads call document (hcall ▸ hw)⟩
  · rw [hrest, hbasis, Option.mem_some] at hb
    subst hb
    intro r hr k hk
    have hnodup : ((reconciled.map e.command).map ItemSyncCommand.operation).Nodup := by
      have hkeys : (reconciled.map e.command).map ItemSyncCommand.operation = reconciled.map CommandRef.operation := by
        rw [List.map_map]
        exact List.map_congr_left fun r _ => e.operation_command r
      rw [hkeys, ← hreconciling]
      exact h.reconciling
    rw [hpersisted] at hk
    rw [← Engine.eq_of_find? hnodup hk (List.mem_map_of_mem (he ▸ hr)) (e.operation_command r)]
    exact .refl _ now
  · rw [hrest] at hjob
    exact hwaiting job (List.mem_of_mem_tail hjob)
  · rw [hrest, hnothing] at hr
    cases hr
  · rw [hrest, hbasis, Option.mem_some] at hb
    subst hb
    exact hallocated

/-- An engine after an update of the document: it is about to adopt what it has written. -/
theorem knows_updated {e e' : Engine} {p' : Persistence} (h : e.Knows now) (hjobs : e.jobs = ⟨id, p⟩ :: rest)
    (hjobs' : e'.jobs = ⟨id, p'⟩ :: rest) (hbasis : ∀ own, basisOf own e'.jobs = none) (hcommands : e'.commands = e.commands)
    (hnext : e.nextObject ≤ e'.nextObject) (hcall : e'.call = e.call)
    (hnodup : ((reconcilingOf e'.jobs).map CommandRef.operation).Nodup)
    (hallocated : ∀ r ∈ reconcilingOf e'.jobs, r.object < e'.nextObject) : e'.Knows now where
  follows b hb := by
    rw [hbasis] at hb
    cases hb
  reconciling := hnodup
  waiting job hjob := by
    rw [hjobs'] at hjob
    exact h.waiting job (by rw [hjobs]; exact hjob)
  commands r hr := Nat.lt_of_lt_of_le (h.commands r (hcommands ▸ hr)) hnext
  adopting := hallocated
  writing b hb := by
    rw [hbasis] at hb
    cases hb
  loads call document hw := h.loads call document (hcall ▸ hw)

omit [DecidableEq ι] in
/-- A document that was updated: what was there has left, or is there still. -/
theorem there_of_store {q' : QueueState ι} (hleft : q'.left = (t.queue.store q'.document).left) {operation : String}
    (h : hasKey ItemSyncCommand.operation operation t.queue.document = true ∨ operation ∈ t.queue.left) :
    hasKey ItemSyncCommand.operation operation q'.document = true ∨ operation ∈ q'.left := by
  cases hthere : hasKey ItemSyncCommand.operation operation q'.document with
  | true => exact .inl rfl
  | false =>
    rw [hleft, QueueState.mem_left_store]
    rcases h with h | h
    · exact .inr (.inr ⟨h, hthere⟩)
    · exact .inr (.inl h)

/-- **The updater of `writeQueue`.** What it writes of a command that the document has follows the
entry, for this is the one that the engine remembers. -/
theorem Guarded.updateQueue (h : t.Guarded) (hclock : t.clock ≤ now)
    (hjobs : (t.queue.engine i).jobs = ⟨id, .writing desired known⟩ :: rest)
    (hfresh : ∀ r ∈ desired, hasKey ItemSyncCommand.operation r.operation known = false →
      hasKey ItemSyncCommand.operation r.operation t.queue.document = false ∧ r.operation ∉ t.queue.left)
    (activating : ι → Nat → String) : Guarded ⟨t.queue.updateQueue i desired known id rest, now, activating⟩ := by
  have hknows := (h.knows i).mono hclock
  have hwriting : (desired, known) ∈ basisOf ((t.queue.engine i).commands, (t.queue.engine i).persisted) (t.queue.engine i).jobs := by
    rw [hjobs]
    rfl
  obtain ⟨harray, hqueue, -, -, hcall⟩ := @Engine.allocate_frame (t.queue.engine i) t.queue.document
  have hnext := @Engine.nextObject_le_allocate (t.queue.engine i) t.queue.document
  have hmem := fun r => @Engine.mem_document_allocate (t.queue.engine i) t.queue.document r
  have hobject := fun r => @Engine.object_lt_allocate (t.queue.engine i) t.queue.document r
  have hold := fun r hr => @Engine.command_allocate_of_lt (t.queue.engine i) t.queue.document r hr
  have hops := Engine.operations_allocate (t.queue.engine i) t.queue.document
  generalize halloc : (t.queue.engine i).allocate t.queue.document = alloc at *
  have hentries : ∀ r ∈ (alloc.1.mergeQueue desired alloc.2 known).entries, r ∈ alloc.2 ∨ r ∈ desired ∧
      (hasKey ItemSyncCommand.operation r.operation known = true → ∃ b ∈ alloc.2, b.operation = r.operation ∧
        ((known.find? fun c => c.operation = b.operation).any fun c => alloc.1.command b ≠ c) = false) := fun r hr => by
    simp only [Engine.mergeQueue, Engine.sortByTimestamp, List.mem_insertionSort] at hr
    exact mem_merge hr
  have hnodup : ((alloc.1.mergeQueue desired alloc.2 known).entries.map CommandRef.operation).Nodup := by
    have hperm : (alloc.1.mergeQueue desired alloc.2 known).entries.Perm _ := List.perm_insertionSort _ _
    refine (hperm.map _).nodup_iff.mpr (nodup_merge ?_)
    rw [hops]
    exact h.nodup
  have hupdate : t.queue.updateQueue i desired known id rest =
      (t.queue.store ((alloc.1.mergeQueue desired alloc.2 known).entries.map alloc.1.command)).setEngine i
        { alloc.1 with
          jobs := ⟨id, .written desired (alloc.1.mergeQueue desired alloc.2 known).entries
            (alloc.1.mergeQueue desired alloc.2 known).gone⟩ :: rest } := by
    simp only [QueueState.updateQueue, halloc]
  rw [hupdate]
  refine h.follow hclock ?_ (fun d' hd' => ?_) (fun operation hthere => there_of_store rfl hthere) (fun _ _ _ hg => hg) fun j => ?_
  · exact (Engine.operations_commands alloc.1 _).symm ▸ hnodup
  · obtain ⟨r, hr, rfl⟩ := List.mem_map.mp (show d' ∈ (alloc.1.mergeQueue desired alloc.2 known).entries.map alloc.1.command from hd')
    rw [alloc.1.operation_command r]
    rcases hentries r hr with hr | ⟨hr, hunchanged⟩
    · exact .inl ⟨_, hmem r hr, alloc.1.operation_command r, .refl _ _⟩
    · cases hknown : hasKey ItemSyncCommand.operation r.operation known with
      | false => exact .inr (hfresh r hr hknown)
      | true =>
        obtain ⟨b, hb, hop, hsame⟩ := hunchanged hknown
        obtain ⟨k, hk⟩ : ∃ k, known.find? (fun c => c.operation = r.operation) = some k := by
          rw [← Option.isSome_iff_exists, List.find?_isSome]
          obtain ⟨c, hc, hcop⟩ := hasKey_eq_true.mp hknown
          exact ⟨c, hc, decide_eq_true hcop⟩
        rw [hop, hk, Option.any_some, decide_eq_false_iff_not, not_not] at hsame
        refine .inl ⟨_, hmem b hb, (alloc.1.operation_command b).trans hop, ?_⟩
        rw [hsame, hold r (hknows.writing _ hwriting r hr)]
        exact hknows.follows _ hwriting r hr k hk
  · refine knows_setEngine h.knows hclock (fun j hj => QueueState.setEngine_of_ne hj _) (QueueState.setEngine_self _) ?_ j
    refine knows_updated hknows hjobs rfl (fun own => rfl) ?_ hnext hcall hnodup fun r hr => ?_
    · simp only [Engine.commands, harray, hqueue]
    · rcases hentries r hr with hr | ⟨hr, -⟩
      · exact hobject r hr
      · exact Nat.lt_of_lt_of_le (hknows.writing _ hwriting r hr) hnext

/-- An acknowledged command leaves the document; the others stay, and the claims on them. -/
theorem Guarded.acknowledges (h : t.Guarded) (hclock : t.clock ≤ now) (mutation : CommandRef) (e : Engine) (conflicted : Option String)
    (hjobs : (t.queue.engine i).jobs = ⟨id, p⟩ :: rest) {q : QueueState ι}
    (hq : q.document = (((t.queue.engine i).allocate t.queue.document).2.filter fun r => r.operation ≠ mutation.operation).map e.command)
    (hleft : q.left = (t.queue.store q.document).left) (hothers : ∀ j, j ≠ i → q.engine j = t.queue.engine j)
    (hself : q.engine i = { e with jobs := ⟨id, .acknowledged (((t.queue.engine i).allocate t.queue.document).2.filter
      fun r => r.operation ≠ mutation.operation) conflicted⟩ :: rest })
    (hlog : ∀ claimId commands, .claimed claimId commands ∈ q.log → .claimed claimId commands ∈ t.queue.log)
    (hcommand : ∀ r (k : ItemSyncCommand), k.Follows now (((t.queue.engine i).allocate t.queue.document).1.command r) →
      k.Follows now (e.command r))
    (he : e.array = (t.queue.engine i).array ∧ e.queue = (t.queue.engine i).queue ∧ e.call = (t.queue.engine i).call ∧
      e.nextObject = ((t.queue.engine i).allocate t.queue.document).1.nextObject)
    (activating : ι → Nat → String) : Guarded ⟨q, now, activating⟩ := by
  obtain ⟨harray, hqueue, hcall, hnext⟩ := he
  have hsub : ∀ r ∈ ((t.queue.engine i).allocate t.queue.document).2.filter fun r => r.operation ≠ mutation.operation,
      r ∈ ((t.queue.engine i).allocate t.queue.document).2 := fun r hr => (List.mem_filter.mp hr).1
  have hnodup : ((((t.queue.engine i).allocate t.queue.document).2.filter fun r => r.operation ≠ mutation.operation).map
      CommandRef.operation).Nodup := by
    refine List.Nodup.sublist (List.filter_sublist.map _) ?_
    rw [Engine.operations_allocate]
    exact h.nodup
  refine h.follow hclock ?_ (fun d' hd' => ?_) (fun operation hthere => there_of_store hleft hthere)
    (fun claimId operation expiresAt ⟨commands, hmem, hc⟩ => ⟨commands, hlog claimId commands hmem, hc⟩) fun j => ?_
  · rw [hq, Engine.operations_commands]
    exact hnodup
  · rw [show d' ∈ _ ↔ _ from Iff.rfl, hq] at hd'
    obtain ⟨r, hr, rfl⟩ := List.mem_map.mp hd'
    refine .inl ⟨_, Engine.mem_document_allocate (hsub r hr), ?_, hcommand r _ (.refl _ now)⟩
    rw [e.operation_command, Engine.operation_command]
  · refine knows_setEngine h.knows hclock hothers hself ?_ j
    refine knows_updated ((h.knows i).mono hclock) hjobs rfl (fun own => rfl) ?_ ?_ hcall hnodup fun r hr => ?_
    · simp only [Engine.commands, harray, hqueue]
    · exact hnext ▸ Engine.nextObject_le_allocate
    · exact hnext ▸ Engine.object_lt_allocate (hsub r hr)

/-- The updater of `persistAcknowledgement`. -/
theorem Guarded.updateAcknowledged (h : t.Guarded) (hclock : t.clock ≤ now) {mutation : CommandRef} {serverVersion : Option Nat}
    (hjobs : (t.queue.engine i).jobs = ⟨id, p⟩ :: rest) (activating : ι → Nat → String) :
    Guarded ⟨t.queue.updateAcknowledged i mutation serverVersion s id rest, now, activating⟩ := by
  obtain ⟨harray, hqueue, -, -, hcall⟩ := @Engine.allocate_frame (t.queue.engine i) t.queue.document
  simp only [QueueState.updateAcknowledged]
  split
  · next version chained hfound =>
    have hself : (((t.queue.setEngine i ((t.queue.engine i).allocate t.queue.document).1).applyEffect i
        (.assign chained (.chained version s.copyId s.suffix))).engine i) =
        ((t.queue.engine i).allocate t.queue.document).1.apply (.assign chained (.chained version s.copyId s.suffix)) := by
      rw [QueueState.applyEffect_engine_self, QueueState.setEngine_self]
    rw [hself]
    refine h.acknowledges hclock mutation
      (((t.queue.engine i).allocate t.queue.document).1.apply (.assign chained (.chained version s.copyId s.suffix))) _ hjobs rfl rfl (fun j hj => ?_) (QueueState.setEngine_self _) (fun claimId commands hmem => ?_) (fun r k hk => ?_)
      ⟨harray, hqueue, hcall, rfl⟩ activating
    · simp [QueueState.setEngine, QueueState.applyEffect, Function.update_of_ne hj]
    · refine @QueueState.claimed_mem_effects _ _ (t.queue.setEngine i _) i [.assign chained _] _ _ (fun x hx => ?_) hmem
      rw [List.mem_singleton.mp hx]
      rfl
    · by_cases hr : r = chained
      · subst hr
        rw [Engine.command_assign_self]
        exact hk.assign rfl
      · rwa [Engine.command_assign_of_ne hr]
  · refine h.acknowledges hclock mutation ((t.queue.engine i).allocate t.queue.document).1 none hjobs ?_ ?_ (fun j hj => ?_) ?_ ?_
      (fun _ _ hk => hk) ⟨harray, hqueue, hcall, rfl⟩ activating
    · rfl
    · rfl
    · exact QueueState.setEngine_of_ne hj _
    · exact QueueState.setEngine_self _
    · exact fun _ _ hmem => hmem

/-- Other writes. -/
theorem knows_setJobs {e : Engine} {jobs : List PersistenceJob} (h : e.Knows now)
    (hbasis : ∀ b ∈ basisOf (e.commands, e.persisted) jobs, b ∈ basisOf (e.commands, e.persisted) e.jobs)
    (hreconciling : reconcilingOf jobs = reconcilingOf e.jobs ∨ reconcilingOf jobs = [])
    (hwaiting : ∀ job ∈ jobs.tail, job.persistence.isWaiting = true) : ({ e with jobs := jobs } : Engine).Knows now where
  follows b hb := h.follows b (hbasis b hb)
  reconciling := by
    rcases hreconciling with heq | heq
    · exact heq ▸ h.reconciling
    · exact heq ▸ List.nodup_nil
  waiting := hwaiting
  commands := h.commands
  adopting r hr := by
    rcases hreconciling with heq | heq
    · exact h.adopting r (heq ▸ hr)
    · rw [heq] at hr
      cases hr
  writing b hb := h.writing b (hbasis b hb)
  loads := h.loads

/-- What a write has to find. -/
theorem Guarded.persist (h : t.Guarded) (hclock : t.clock ≤ now) (hbacked : t.Backed (.persist i s))
    (hq : t.queue.persist i s = some q) (activating : ι → Nat → String) : Guarded ⟨q, now, activating⟩ := by
  have hknows := (h.knows i).mono hclock
  -- A step that changes nothing but the engine.
  have hengine : ∀ e : Engine, e.Knows now → Guarded ⟨t.queue.setEngine i e, now, activating⟩ := fun e he =>
    h.stay hclock rfl rfl (fun _ _ _ hg => hg)
      (knows_setEngine h.knows hclock (fun j hj => QueueState.setEngine_of_ne hj _) (QueueState.setEngine_self _) he)
  have hbasis : ∀ (e : Engine) (reconciled : List CommandRef),
      ((e.adoptReconciledQueue reconciled).rememberPersistedCommands reconciled).commands = reconciled :=
    fun e reconciled => Engine.commands_adoptReconciledQueue
  cases hjobs : (t.queue.engine i).jobs with
  | nil => simp [QueueState.persist, hjobs] at hq
  | cons job rest =>
    obtain ⟨id, p⟩ := job
    have hwaiting : ∀ job ∈ rest, job.persistence.isWaiting = true := fun job hjob => hknows.waiting job (by rw [hjobs]; exact hjob)
    cases p with
    | write =>
      simp only [QueueState.persist, hjobs, Option.some.injEq] at hq
      subst hq
      refine hengine _ (knows_setJobs hknows (fun b hb => ?_) (.inr rfl) hwaiting)
      rw [hjobs]
      exact hb
    | writing desired known =>
      simp only [QueueState.persist, hjobs, Option.some.injEq] at hq
      subst hq
      exact h.updateQueue hclock hjobs (hbacked.updates (desired, known) (by simp only [updates, hjobs]; rfl)) activating
    | written desired reconciled elsewhere =>
      cases elsewhere with
      | cons r elsewhere =>
        simp only [QueueState.persist, hjobs, Option.some.injEq] at hq
        subst hq
        refine hengine _ (knows_setJobs hknows (fun b hb => by cases hb) (.inl ?_) hwaiting)
        rw [hjobs]
        rfl
      | nil =>
        simp only [QueueState.persist, hjobs, Option.some.injEq] at hq
        subst hq
        exact hengine _ (knows_adopt hknows hjobs (by rw [hjobs]; rfl) (hbasis _ reconciled)
          (by simp [QueueState.adopt, Engine.rememberPersistedCommands]) rfl Engine.adoptReconciledQueue_nextObject
          Engine.adoptReconciledQueue_call)
    | acknowledge mutation version =>
      simp only [QueueState.persist, hjobs, Option.some.injEq] at hq
      subst hq
      exact h.updateAcknowledged hclock hjobs activating
    | acknowledged reconciled conflicted =>
      simp only [QueueState.persist, hjobs, Option.some.injEq] at hq
      subst hq
      exact hengine _ (knows_adopt hknows hjobs (by rw [hjobs]; rfl) (hbasis _ reconciled)
        (by simp [QueueState.adopt, Engine.rememberPersistedCommands]) rfl Engine.adoptReconciledQueue_nextObject
        Engine.adoptReconciledQueue_call)
    | clear =>
      simp only [QueueState.persist, hjobs, Option.some.injEq] at hq
      subst hq
      refine h.follow hclock List.nodup_nil (fun d' hd' => by cases hd') (fun operation hthere => there_of_store rfl hthere)
        (fun claimId operation expiresAt hg => ?_) fun j => ?_
      · obtain ⟨commands, hlog, hc⟩ := hg
        exact ⟨commands, (List.mem_cons.mp hlog).resolve_left (by simp), hc⟩
      · refine knows_setEngine h.knows hclock (fun j hj => QueueState.setEngine_of_ne hj _) (QueueState.setEngine_self _) ?_ j
        obtain ⟨hown, hnothing⟩ := @basisOf_waiting rest ((t.queue.engine i).commands, (t.queue.engine i).persisted) hwaiting
        refine knows_setJobs hknows (fun b hb => ?_) (.inr hnothing) fun job hjob => hwaiting job (List.mem_of_mem_tail hjob)
        rw [hown] at hb
        rw [hjobs]
        exact hb

theorem grants_of_claims {x : QueueEffect} (h : x.claims = false) : x.grants = false := by
  cases x with
  | assign r a => rfl
  | _ => exact h

/-- A method call grants nothing at once. -/
theorem grants_begin {e : Engine} {method : QueueCall} : (∀ x ∈ (e.begin s method).effects, x.grants = false) ∧
    (e.begin s method).await.any EngineAwait.loads = false := by
  by_cases hclaims : ∃ claimId leaseMs, method = .claimStaged claimId leaseMs
  · obtain ⟨claimId, leaseMs, rfl⟩ := hclaims
    simp only [Engine.begin, Engine.claimStaged]
    split
    · exact ⟨fun x hx => (by cases hx), rfl⟩
    · refine ⟨fun x hx => ?_, rfl⟩
      simp only [Engine.andThen, Engine.persistThen, List.mem_append, List.mem_map, List.mem_singleton] at hx
      rcases hx with ⟨r, -, rfl⟩ | rfl <;> rfl
  · have hu : (e.begin s method).Unclaiming := Engine.unclaiming_begin fun claimId leaseMs h => hclaims ⟨claimId, leaseMs, h⟩
    exact ⟨fun x hx => grants_of_claims (hu.1 x hx), hu.2⟩

/-- **What follows an await.** -/
theorem Guarded.resume (h : t.Guarded) (hclock : t.clock ≤ s.now) {answer : QueueAnswer} {w : EngineAwait}
    (hbacked : t.Backed (.resume i answer s)) (hw : (t.queue.engine i).call s.call = some w)
    (hresume : (t.queue.engine i).resume s t.queue.document w answer = some stretch) (activating : ι → Nat → String) :
    Guarded ⟨t.queue.runStretch i s.call stretch, s.now, activating⟩ := by
  have hknows := (h.knows i).mono hclock
  by_cases hclaim : ∃ claimId claimed job, w = .claimWrite claimId claimed job
  · obtain ⟨claimId, claimed, job, rfl⟩ := hclaim
    cases answer with
    | written =>
      obtain rfl := Option.some.inj hresume
      obtain ⟨hid, hwritten⟩ := hbacked.returns (claimId, claimed) (by simp only [returns, hw]; rfl)
      exact h.grants hclock hid hwritten activating
    | _ => cases hresume
  · by_cases hget : w = .restoreGet
    · subst hget
      cases answer with
      | stored =>
        obtain rfl := Option.some.inj hresume
        refine h.runStretch hclock ?_ (fun document hd => ?_) (fun x hx => ?_) activating
        · trivial
        · cases hd
          exact h.nodup
        · cases hx
      | _ => cases hresume
    · have hu : stretch.Unclaiming := Engine.unclaiming_resume hresume (fun _ _ _ hc => hclaim ⟨_, _, _, hc⟩) hget
      refine h.runStretch hclock ?_ (fun document hd => ?_) (fun x hx => grants_of_claims (hu.1 x hx)) activating
      · refine (Engine.resumes_of_resume hresume).permitted hu hknows hw fun copy hcopy => ?_
        subst hcopy
        exact hbacked.queues _ rfl
      · have hloads := hu.2
        rw [hd] at hloads
        cases hloads

/-- **A step.** -/
theorem Guarded.step (h : t.Guarded) {a : QueueLabel ι} (hbacked : t.Backed a) (ht : t.step a = some t') : t'.Guarded := by
  unfold ClaimState.step at ht
  split at ht
  · cases ht
  · next hclock =>
    replace hclock := Nat.le_of_not_lt hclock
    obtain ⟨q, hq, rfl⟩ := Option.map_eq_some_iff.mp ht
    cases a with
    | call i method s =>
      simp only [QueueState.step] at hq
      split at hq
      · obtain rfl := Option.some.inj hq
        obtain ⟨hgrants, hloads⟩ := @grants_begin s (t.queue.engine i) method
        refine h.runStretch hclock (Engine.permitted_begin fun m hm => ?_) (fun document hd => ?_) hgrants _
        · rcases hm with rfl | ⟨claim, rfl⟩ <;> exact hbacked.queues _ rfl
        · rw [hd] at hloads
          cases hloads
      · cases hq
    | resume i answer s =>
      simp only [QueueState.step] at hq
      split at hq
      · cases hq
      · next w hw =>
        split at hq
        · obtain ⟨stretch, hstretch, rfl⟩ := Option.map_eq_some_iff.mp hq
          exact h.resume hclock hbacked hw hstretch _
        · cases hq
    | persist i s => exact h.persist hclock hbacked hq _
    | crash i =>
      obtain rfl := Option.some.inj hq
      refine h.stay hclock rfl rfl (fun _ _ _ hg => hg)
        (knows_setEngine h.knows hclock (fun j hj => QueueState.setEngine_of_ne hj _) (QueueState.setEngine_self _) Engine.knows_newEngine)

omit [DecidableEq ι] in
theorem guarded_init (hlog : t.queue.log = []) (hnodup : (t.queue.document.map ItemSyncCommand.operation).Nodup)
    (hengine : ∀ i, t.queue.engine i = newEngine) : t.Guarded := by
  have hnever : ∀ claimId operation expiresAt, ¬ t.queue.Granted claimId operation expiresAt :=
    fun claimId operation expiresAt ⟨commands, hmem, _⟩ => by simp [hlog] at hmem
  exact ⟨hnodup, fun i => hengine i ▸ Engine.knows_newEngine, fun _ _ _ hg => absurd hg (hnever _ _ _),
    fun _ _ _ hg => absurd hg (hnever _ _ _), fun _ _ _ _ _ hg => absurd hg (hnever _ _ _)⟩

theorem guarded (h : (claimants ι).ReachableUnder Backed t) : t.Guarded := by
  refine h.invariant Guarded (fun t hinit => ?_) fun _ _ _ _ hguarded hbacked hstep => hguarded.step hbacked hstep
  obtain ⟨hlog, hnodup, hengine⟩ := hinit
  exact guarded_init hlog hnodup hengine

/-- Whether the event returns the operation with a claim that has not run out. -/
def grantsAt (now : Nat) (claimId operation : String) : QueueEvent → Bool
  | .claimed claimId' commands => claimId' = claimId ∧
      commands.any fun c => c.operation = operation ∧ c.projectionClaimExpiresAt.any fun at' => now < at'
  | _ => false

omit [DecidableEq ι] in
theorem grantedAt_iff {q : QueueState ι} :
    q.GrantedAt now claimId operation ↔ q.log.any (grantsAt now claimId operation) = true := by
  simp only [QueueState.GrantedAt, QueueState.Granted, List.any_eq_true]
  constructor
  · rintro ⟨expiresAt, ⟨commands, hmem, c, hc, hop, hexpires⟩, hnow⟩
    refine ⟨_, hmem, ?_⟩
    simp only [grantsAt, List.any_eq_true, Bool.decide_and, Bool.and_eq_true, decide_eq_true_eq, true_and]
    exact ⟨c, hc, hop, by simpa [hexpires] using hnow⟩
  · rintro ⟨event, hmem, hgrants⟩
    cases event with
    | claimed claimId' commands =>
      simp only [grantsAt, List.any_eq_true, Bool.decide_and, Bool.and_eq_true, decide_eq_true_eq] at hgrants
      obtain ⟨rfl, c, hc, hop, hexpires⟩ := hgrants
      cases hat : c.projectionClaimExpiresAt with
      | none => simp [hat] at hexpires
      | some expiresAt => exact ⟨expiresAt, ⟨commands, hmem, c, hc, hop, hat⟩, by simpa [hat] using hexpires⟩
    | _ => cases hgrants

instance (q : QueueState Bool) (now : Nat) (claimId operation : String) : Decidable (q.GrantedAt now claimId operation) :=
  decidable_of_iff _ grantedAt_iff.symm

instance (e : Engine) (operation : String) : Decidable (e.Fresh operation) := inferInstanceAs (Decidable (_ → _))

instance (q : QueueState Bool) (claimId operation : String) : Decidable (q.Carries claimId operation) :=
  inferInstanceAs (Decidable (∃ _ ∈ _, _))

instance (t : ClaimState Bool) (a : QueueLabel Bool) : Decidable (t.Backed a) :=
  decidable_of_iff
    ((∀ r ∈ t.returns a, r.1 ≠ "" ∧ ∀ c ∈ r.2, ∃ d ∈ t.queue.document,
        d.operation = c.operation ∧ d.projectionClaimId = some r.1 ∧ d.projectionClaimExpiresAt = c.projectionClaimExpiresAt) ∧
      (∀ p ∈ t.settles a, t.queue.Carries p.1 p.2 ∨ t.queue.GrantedAt (t.timeAfter a) p.1 p.2) ∧
      (∀ p ∈ queues a, (t.queue.engine p.1).Fresh p.2) ∧
      ∀ w ∈ t.updates a, ∀ r ∈ w.1, hasKey ItemSyncCommand.operation r.operation w.2 = false →
        hasKey ItemSyncCommand.operation r.operation t.queue.document = false ∧ r.operation ∉ t.queue.left)
    ⟨fun ⟨hr, hs, hq, hu⟩ => ⟨hr, hs, hq, hu⟩, fun h => ⟨h.returns, h.settles, h.queues, h.updates⟩⟩

open QueueState (sharedEdit answers writes)

/-- One staged command, and engines that have not begun. -/
def oneStaged : ClaimState Bool :=
  ⟨⟨[{ sharedEdit "edit" with status := some .staged }], fun _ => newEngine, [], []⟩, 0, fun _ _ => ""⟩

theorem init_oneStaged : (claimants Bool).init oneStaged := ⟨rfl, by decide, fun _ => rfl⟩

/-- An engine restores the staged command. -/
def restoringStaged (i : Bool) : List (QueueLabel Bool) :=
  .call i .restore ⟨0, 0, "", ""⟩ :: answers i [.written, .stored, .stored]

end ClaimState

end Bittery
