/-
What a stretch of a method can do, said once: all but a few only assign to commands, and end
with a write at most.
-/
import Bittery.Client.ItemSyncFacts

namespace Bittery

open Lib

/-- An effect on commands and flags only. -/
def QueueEffect.isLocal : QueueEffect → Bool
  | .assign .. | .setDraining _ | .requestDrain _ => true
  | .note (.sent _) | .note (.refused _) | .note (.claimed ..) => true
  | _ => false

/-- The await of a call whose command is not stored yet. -/
def EngineAwait.isFirstWrite : EngineAwait → Bool
  | .enqueueWrite .. | .stageWrite .. => true
  | _ => false

namespace Engine

/-- A stretch that only assigns to commands, and may end with a write. -/
inductive Plain (e : Engine) : Stretch → Prop
  | rest {effects : List QueueEffect} {await : Option EngineAwait} (hlocal : ∀ x ∈ effects, x.isLocal = true)
      (hjob : ∀ w, await = some w → w.job = none ∧ w.isFirstWrite = false) : Plain e ⟨effects, await⟩
  | write {effects : List QueueEffect} {w : EngineAwait} (hlocal : ∀ x ∈ effects, x.isLocal = true)
      (hjob : w.job = some e.nextJob ∧ w.isFirstWrite = false) : Plain e ⟨effects ++ [.persist], some w⟩

variable {e : Engine} {s : Surroundings} {queue : QueueRef} {attempted : List String} {mutation : CommandRef} {index : Nat}
  {caller : EnqueueCaller} {after : AfterConflict} {conflicts : List CommandRef} {effects : List QueueEffect}

/-! ## Stretches that are plain -/

theorem apply_nextJob_of_isLocal {x : QueueEffect} (h : x.isLocal = true) : (e.apply x).nextJob = e.nextJob := by
  cases x <;> first | rfl | cases h

theorem exec_nextJob_of_isLocal (h : ∀ x ∈ effects, x.isLocal = true) : (e.exec effects).nextJob = e.nextJob := by
  induction effects generalizing e with
  | nil => rfl
  | cons x xs ih =>
    rw [exec_cons, ih fun y hy => h y (List.mem_cons_of_mem x hy), apply_nextJob_of_isLocal (h x List.mem_cons_self)]

theorem plain_still {w : Option EngineAwait} (hjob : ∀ v, w = some v → v.job = none ∧ v.isFirstWrite = false) :
    e.Plain ⟨[], w⟩ := .rest (by simp) hjob

/-- Nothing is done, and the call waits for something outside. -/
theorem plain_await {w : EngineAwait} (hjob : w.job = none) (hfirst : w.isFirstWrite = false) : e.Plain ⟨[], some w⟩ :=
  plain_still fun v hv => by cases hv; exact ⟨hjob, hfirst⟩

theorem plain_over : e.Plain ⟨[], none⟩ := plain_still nofun

theorem plain_persistThen {await : Nat → EngineAwait} (hlocal : ∀ x ∈ effects, x.isLocal = true)
    (hjob : ∀ job, (await job).job = some job) (hfirst : ∀ job, (await job).isFirstWrite = false) :
    e.Plain (e.andThen effects (persistThen await)) := by
  rw [andThen, persistThen, exec_nextJob_of_isLocal hlocal]
  exact .write hlocal ⟨hjob _, hfirst _⟩

theorem plain_andThen {rest : Engine → Stretch} (hlocal : ∀ x ∈ effects, x.isLocal = true)
    (h : (e.exec effects).Plain (rest (e.exec effects))) : e.Plain (e.andThen effects rest) := by
  rw [andThen]
  generalize rest (e.exec effects) = stretch at h ⊢
  cases h with
  | @rest effects' await hlocal' hjob =>
    exact .rest (fun x hx => (List.mem_append.mp hx).elim (hlocal x) (hlocal' x)) hjob
  | @write effects' w hlocal' hjob =>
    rw [exec_nextJob_of_isLocal hlocal] at hjob
    rw [← List.append_assoc]
    exact .write (fun x hx => (List.mem_append.mp hx).elim (hlocal x) (hlocal' x)) hjob

theorem plain_endPass (now : Nat) : e.Plain (e.endPass now) := by
  unfold endPass drainOnce
  split
  · split
    · next w hw =>
      obtain ⟨queue, -, hw⟩ := Option.bind_eq_some_iff.mp hw
      obtain ⟨first, -, rfl⟩ := Option.map_eq_some_iff.mp hw
      exact .rest (by simp [QueueEffect.isLocal]) fun v hv => by cases hv; exact ⟨rfl, rfl⟩
    · exact .rest (by simp [QueueEffect.isLocal]) nofun
  · exact .rest (by simp [QueueEffect.isLocal]) nofun

theorem plain_assign_persistThen {a : Assignment} {r : CommandRef} {await : Nat → EngineAwait}
    (hjob : ∀ job, (await job).job = some job) (hfirst : ∀ job, (await job).isFirstWrite = false) :
    e.Plain (e.andThen [.assign r a] (persistThen await)) :=
  plain_persistThen (by simp [QueueEffect.isLocal]) hjob hfirst

theorem plain_attemptFailed (error : String) : e.Plain (e.attemptFailed s queue attempted mutation error) :=
  plain_assign_persistThen (fun _ => rfl) fun _ => rfl

theorem plain_drainLoop : e.Plain (e.drainLoop s queue attempted) := by
  unfold drainLoop
  split
  · exact plain_endPass _
  · split
    · exact plain_endPass _
    · have hsent : ∀ index mutation, e.Plain ⟨[.note (.sent mutation.operation)], some (.request queue attempted index mutation)⟩ :=
        fun _ _ => .rest (by simp [QueueEffect.isLocal]) fun v hv => by cases hv; exact ⟨rfl, rfl⟩
      simp only []
      split
      · exact hsent _ _
      · split
        · exact hsent _ _
        · exact plain_attemptFailed _

theorem plain_drain (now : Nat) : e.Plain (e.drain now) := by
  unfold drain drainOnce
  split
  · exact .rest (by simp [QueueEffect.isLocal]) nofun
  · split
    · next w hw =>
      obtain ⟨queue, -, hw⟩ := Option.bind_eq_some_iff.mp hw
      obtain ⟨first, -, rfl⟩ := Option.map_eq_some_iff.mp hw
      exact .rest (by simp [QueueEffect.isLocal]) fun v hv => by cases hv; exact ⟨rfl, rfl⟩
    · exact .rest (by simp [QueueEffect.isLocal]) nofun

theorem plain_preserveNext : e.Plain (preserveNext conflicts) := by
  cases conflicts with
  | nil => exact plain_over
  | cons => exact plain_await rfl rfl

theorem plain_afterConflict : e.Plain (e.afterConflict s after) := by
  cases after with
  | drain => exact plain_drainLoop
  | restore => exact plain_preserveNext

theorem plain_preserveFailed (error : String) : e.Plain (e.preserveFailed mutation after error) :=
  plain_assign_persistThen (fun _ => rfl) fun _ => rfl

theorem plain_restoredQueue : e.Plain (e.restoredQueue queue conflicts) := by
  unfold restoredQueue
  split
  · exact plain_preserveNext
  · split
    · exact plain_await rfl rfl
    · exact plain_preserveNext

theorem plain_restoreLoop (changed : Bool) : e.Plain (e.restoreLoop queue index changed conflicts) := by
  unfold restoreLoop
  split
  · exact plain_await rfl rfl
  · split
    · exact @plain_persistThen e [] (.restoreWrite queue conflicts) (by simp) (fun _ => rfl) fun _ => rfl
    · exact plain_restoredQueue

theorem plain_restoreApplied (command : CommandRef) (changed : Bool) (outcome : Projection) :
    e.Plain (e.restoreApplied s queue index command changed conflicts outcome) := by
  cases outcome with
  | failed error => exact plain_andThen (by simp [QueueEffect.isLocal]) (plain_restoreLoop true)
  | conflicted => exact plain_andThen (by simp [QueueEffect.isLocal]) (plain_restoreLoop true)
  | applied =>
    simp only [restoreApplied]
    split
    · exact plain_andThen (by simp [QueueEffect.isLocal]) (plain_restoreLoop true)
    · split
      · exact plain_andThen (by simp [QueueEffect.isLocal]) (plain_restoreLoop true)
      · exact plain_restoreLoop changed

theorem plain_enqueueApplied (operation : String) (command : CommandRef) (outcome : Projection) :
    e.Plain (e.enqueueApplied operation command caller outcome) := by
  cases outcome <;> exact plain_persistThen (by simp [QueueEffect.isLocal]) (fun _ => rfl) fun _ => rfl

theorem plain_activateApplied (command : CommandRef) (outcome : Projection) : e.Plain (e.activateApplied command outcome) := by
  cases outcome <;> exact plain_persistThen (by simp [QueueEffect.isLocal]) (fun _ => rfl) fun _ => rfl

theorem plain_claimStaged (claimId : String) (leaseMs : Nat) : e.Plain (e.claimStaged s claimId leaseMs) := by
  unfold claimStaged
  split
  · exact plain_over
  · refine plain_persistThen (fun x hx => ?_) (fun _ => rfl) fun _ => rfl
    obtain ⟨r, -, rfl⟩ := List.mem_map.mp hx
    rfl

theorem plain_responded (version : Option Nat) (realId : Option String) :
    e.Plain (e.responded queue attempted index mutation version realId) := by
  unfold responded
  simp only []
  split
  · exact plain_await rfl rfl
  · split
    · exact plain_await rfl rfl
    · split
      · exact plain_await rfl rfl
      · refine plain_persistThen (fun x hx => ?_) (fun _ => rfl) fun _ => rfl
        obtain ⟨r, -, rfl⟩ := List.mem_map.mp hx
        rfl

theorem plain_requestAnswered (result : Except RequestError (Option Nat × Option String)) :
    e.Plain (e.requestAnswered s queue attempted index mutation result) := by
  cases result with
  | ok answer => exact plain_responded _ _
  | error error =>
    cases error with
    | conflict => exact .rest (by simp [QueueEffect.isLocal]) fun v hv => by cases hv; exact ⟨rfl, rfl⟩
    | badRequest message => exact plain_assign_persistThen (fun _ => rfl) fun _ => rfl
    | notFound message => exact plain_assign_persistThen (fun _ => rfl) fun _ => rfl
    | unavailable message => exact plain_attemptFailed message

theorem plain_clientAnswered (first : Nat) (result : Except String Unit) :
    e.Plain (e.clientAnswered s queue first result) := by
  cases result with
  | ok => exact plain_drainLoop
  | error error =>
    simp only [clientAnswered, clientFailed]
    split
    · exact plain_endPass _
    · exact plain_assign_persistThen (fun _ => rfl) fun _ => rfl

theorem plain_acknowledgeWritten (job : Nat) : e.Plain (e.acknowledgeWritten s queue attempted job) := by
  unfold acknowledgeWritten
  split
  · exact plain_await rfl rfl
  · exact plain_drainLoop

theorem plain_currentAnswered (result : Except String (Option Nat)) :
    e.Plain (e.currentAnswered s queue attempted mutation result) := by
  cases result with
  | ok => exact plain_await rfl rfl
  | error => exact plain_assign_persistThen (fun _ => rfl) fun _ => rfl

theorem plain_reconcileAnswered (version : Option Nat) (result : Except String Unit) :
    e.Plain (e.reconcileAnswered s queue attempted mutation version result) :=
  plain_assign_persistThen (fun _ => rfl) fun _ => rfl

theorem plain_afterRefusal : e.Plain (e.afterRefusal s queue attempted mutation) := by
  unfold afterRefusal
  split
  · exact plain_await rfl rfl
  · exact plain_drainLoop

/-! ## What a call does -/

/-- A stretch after an effect. -/
def Then (x : QueueEffect) (rest : Stretch) : Stretch := ⟨x :: rest.effects, rest.await⟩

/-- A command is put into the queue. -/
def pushing (e : Engine) (s : Surroundings) (c : ItemSyncCommand) (await : Nat → EngineAwait) : Stretch :=
  ⟨[.push s.call c, .persist], some (await e.nextJob)⟩

theorem push_nextJob (c : ItemSyncCommand) : (e.push c).nextJob = e.nextJob := by
  rw [push, setQueue]
  split <;> rfl

theorem push_jobs (c : ItemSyncCommand) : (e.push c).jobs = e.jobs := by
  rw [push, setQueue]
  split <;> rfl

theorem push_persisted (c : ItemSyncCommand) : (e.push c).persisted = e.persisted := by
  rw [push, setQueue]
  split <;> rfl

theorem andThen_push (c : ItemSyncCommand) (await : Nat → EngineAwait) :
    e.andThen [.push s.call c] (persistThen await) = e.pushing s c await := by
  rw [andThen, persistThen, pushing, exec_cons, exec_nil, apply, push_nextJob]
  rfl

/-- **What follows an await.** -/
inductive Resumes (e : Engine) (s : Surroundings) : EngineAwait → QueueAnswer → Stretch → Prop
  | plain {w : EngineAwait} {answer : QueueAnswer} {stretch : Stretch} : e.Plain stretch → Resumes e s w answer stretch
  | enqueued {operation : String} {job : Nat} {caller : EnqueueCaller} {rest : Stretch} : e.Plain rest →
    Resumes e s (.enqueueWrite operation job caller) .written (Then (.note (.resolved s.call operation)) rest)
  | settled {operation : String} {job : Nat} {caller : EnqueueCaller} {rest : Stretch} : e.Plain rest →
    Resumes e s (.enqueueSettle operation job none caller) .written (Then (.note (.resolved s.call operation)) rest)
  | staged {operation : String} {job : Nat} :
    Resumes e s (.stageWrite operation job) .written ⟨[.note (.resolved s.call operation)], none⟩
  | copyFound {mutation : CommandRef} {after : AfterConflict} {copy : ItemSyncCommand} {rest : Stretch} :
    e.hasOperation copy.operation = true → e.Plain rest →
    Resumes e s (.preserveConflict mutation after) (.copy (.ok (some copy))) (Then (.note (.found copy.operation)) rest)
  | copyPushed {mutation : CommandRef} {after : AfterConflict} {copy : ItemSyncCommand} :
    e.hasOperation copy.operation = false →
    Resumes e s (.preserveConflict mutation after) (.copy (.ok (some copy)))
      (e.pushing s (enqueueing copy) fun job => .enqueueWrite copy.operation job (.preserveConflict mutation after))
  | acknowledged {queue : QueueRef} {attempted : List String} {index : Nat} {mutation : CommandRef} {version : Option Nat} :
    Resumes e s (.acknowledge queue attempted index mutation version) (.acknowledged (.ok ()))
      ⟨[.acknowledge queue index mutation version], some (.acknowledgeWrite queue attempted e.nextJob)⟩
  | restored {job : Nat} : Resumes e s (.restoreTail job) .written ⟨[.clearMaps], some .restoreGet⟩
  | loaded {document : List ItemSyncCommand} {rest : Stretch} : (e.load document).Plain rest →
    Resumes e s (.restoreLoad document) .stored (Then (.load document) rest)

/-- **What a method does up to its first await.** -/
inductive Begins (e : Engine) (s : Surroundings) : QueueCall → Stretch → Prop
  | plain {method : QueueCall} {stretch : Stretch} : e.Plain stretch → Begins e s method stretch
  | found {method : QueueCall} {m : ItemSyncCommand} :
    (method = .enqueue m ∨ ∃ claim, method = .stage m claim) → e.hasOperation m.operation = true →
    Begins e s method ⟨[.note (.found m.operation)], none⟩
  | enqueued {m : ItemSyncCommand} : e.hasOperation m.operation = false →
    Begins e s (.enqueue m) (e.pushing s (enqueueing m) fun job => .enqueueWrite m.operation job .user)
  | staged {m c : ItemSyncCommand} {claim : Option (String × Nat)} : e.hasOperation m.operation = false →
    c.operation = m.operation → c.status = some .staged →
    Begins e s (.stage m claim) (e.pushing s c (.stageWrite m.operation))
  | cancelled {operation claimId : String} {queue : QueueRef} : e.queue = some queue →
    Begins e s (.cancel operation claimId) ⟨[.cancel queue operation, .persist], some (.cancelWrite e.nextJob)⟩
  | restored : Begins e s .restore ⟨[], some (.restoreTail (e.nextJob - 1))⟩
  | cleared : Begins e s (.clear true) ⟨[.deleteQueue, .persist], some (.clearWrite e.nextJob)⟩
  | clearedAll : Begins e s (.clear false)
      ⟨[.note (.cleared e.operations), .clearMaps, .clearStored], some (.clearWrite e.nextJob)⟩

/-- `enqueue` resolves. -/
theorem enqueued_eq (event : QueueEvent) :
    ∃ rest, e.Plain rest ∧ e.enqueued s caller event = Then (.note event) rest := by
  cases caller with
  | user => exact ⟨_, plain_over, rfl⟩
  | preserveConflict mutation after => exact ⟨_, plain_afterConflict, rfl⟩

theorem resumes_of_resume {document : List ItemSyncCommand} {w : EngineAwait} {answer : QueueAnswer} {stretch : Stretch}
    (h : e.resume s document w answer = some stretch) : e.Resumes s w answer stretch := by
  unfold resume at h
  split at h <;> cases h
  · next operation job caller =>
    obtain ⟨rest, hrest, heq⟩ := @enqueued_eq e s caller (.resolved s.call operation)
    unfold enqueueWritten
    split
    · rw [heq]; exact .enqueued hrest
    · split
      · rw [heq]; exact .enqueued hrest
      · exact .plain (plain_await rfl rfl)
  · exact .plain (plain_enqueueApplied _ _ _)
  · next operation job error caller =>
    cases error with
    | none =>
      obtain ⟨rest, hrest, heq⟩ := @enqueued_eq e s caller (.resolved s.call operation)
      rw [enqueueSettled, heq]
      exact .settled hrest
    | some error =>
      cases caller with
      | user => exact .plain plain_over
      | preserveConflict mutation after => exact .plain (plain_preserveFailed error)
  · exact .staged
  · exact .plain (.rest (by simp [QueueEffect.isLocal]) nofun)
  · exact .plain (plain_activateApplied _ _)
  · exact .plain plain_over
  · exact .plain plain_over
  · exact .plain plain_over
  · next mutation after result =>
    cases result with
    | error error => exact .plain (plain_preserveFailed error)
    | ok copy =>
      cases copy with
      | none => exact .plain plain_afterConflict
      | some copy =>
        simp only [preserved, enqueue]
        split
        · next hfound => exact .copyFound hfound plain_afterConflict
        · next hnew =>
          rw [andThen_push]
          exact .copyPushed (Bool.eq_false_iff.mpr hnew)
  · exact .plain plain_afterConflict
  · exact .restored
  · exact .plain (plain_await rfl rfl)
  · next document =>
    refine .loaded ?_
    cases hqueue : (e.exec [.load document]).queue with
    | none => simp only [hqueue]; exact plain_preserveNext
    | some queue => simp only [hqueue]; exact plain_restoreLoop false
  · exact .plain (plain_restoreApplied _ _ _)
  · exact .plain plain_restoredQueue
  · exact .plain (plain_clientAnswered _ _)
  · exact .plain (plain_endPass _)
  · exact .plain (plain_requestAnswered _)
  · exact .plain (plain_await rfl rfl)
  · next result =>
    cases result with
    | ok => exact .acknowledged
    | error error => exact .plain (plain_attemptFailed error)
  · exact .plain (plain_acknowledgeWritten _)
  · exact .plain (plain_currentAnswered _)
  · exact .plain (plain_reconcileAnswered _ _)
  · exact .plain plain_afterRefusal
  · exact .plain plain_drainLoop

theorem begins_of_begin (method : QueueCall) : e.Begins s method (e.begin s method) := by
  cases method with
  | enqueue m =>
    simp only [begin, enqueue]
    split
    · next hfound => exact .found (.inl rfl) hfound
    · next hnew =>
      rw [andThen_push]
      exact .enqueued (Bool.eq_false_iff.mpr hnew)
  | stage m claim =>
    simp only [begin, stage]
    split
    · next hfound => exact .found (.inr ⟨claim, rfl⟩) hfound
    · next hnew =>
      rw [andThen_push]
      exact .staged (Bool.eq_false_iff.mpr hnew) rfl rfl
  | claimStaged claimId leaseMs => exact .plain (plain_claimStaged claimId leaseMs)
  | activate operation claimId =>
    simp only [begin, activate]
    split
    · exact .plain plain_over
    · exact .plain (plain_await rfl rfl)
  | cancel operation claimId =>
    simp only [begin, cancel]
    split
    · next queue _ hqueue _ => exact .cancelled hqueue
    · exact .plain plain_over
  | restore => exact .restored
  | drain => exact .plain (plain_drain s.now)
  | clear account =>
    cases account with
    | true => exact .cleared
    | false => exact .clearedAll

/-! ## What a plain stretch leaves alone -/

variable {e' : Engine} {operation : String} {stretch : Stretch}

/-- The lists of operations are the same. -/
structure SameIds (e e' : Engine) : Prop where
  array : e'.array = e.array
  queue : e'.queue = e.queue
  persisted : e'.persisted = e.persisted

theorem SameIds.hasOperation (h : SameIds e e') : e'.hasOperation operation = e.hasOperation operation := by
  simp only [Engine.hasOperation, commands, h.array, h.queue]

theorem SameIds.remembers (h : SameIds e e') : e'.remembers operation = e.remembers operation := by
  simp only [Engine.remembers, h.persisted]

theorem exec_of_isLocal (h : ∀ x ∈ effects, x.isLocal = true) :
    SameIds e (e.exec effects) ∧ (e.exec effects).jobs = e.jobs := by
  induction effects generalizing e with
  | nil => exact ⟨⟨rfl, rfl, rfl⟩, rfl⟩
  | cons x xs ih =>
    obtain ⟨hids, hjobs⟩ := @ih (e.apply x) fun y hy => h y (List.mem_cons_of_mem x hy)
    have hx := h x List.mem_cons_self
    cases x with
    | assign | setDraining | requestDrain | note => exact ⟨⟨hids.array, hids.queue, hids.persisted⟩, hjobs⟩
    | _ => cases hx

/-- **A plain stretch** changes no list of operations; it ends with a write that the call waits
for, or without one. -/
theorem Plain.exec (h : e.Plain stretch) : SameIds e (e.exec stretch.effects) ∧
    ((e.exec stretch.effects).jobs = e.jobs ∨
      (e.exec stretch.effects).jobs = e.jobs ++ [⟨e.nextJob, .write⟩] ∧
        ∃ w, stretch.await = some w ∧ w.job = some e.nextJob) := by
  cases h with
  | rest hlocal hjob =>
    obtain ⟨hids, hjobs⟩ := exec_of_isLocal (e := e) hlocal
    exact ⟨hids, .inl hjobs⟩
  | @write effects w hlocal hjob =>
    obtain ⟨hids, hjobs⟩ := @exec_of_isLocal e effects hlocal
    rw [exec_append]
    refine ⟨⟨hids.array, hids.queue, hids.persisted⟩, .inr ⟨?_, w, rfl, hjob.1⟩⟩
    simp only [exec_cons, exec_nil, apply, schedule, hjobs, exec_nextJob_of_isLocal hlocal]

end Engine

end Bittery
