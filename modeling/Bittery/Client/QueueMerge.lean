/-
The stored document under the writes of several engines: what has left it does not come
back, and nothing leaves it but by an acknowledgement, a cancel or a clear.

The next write of an engine adds what it has and does not remember as stored, and deletes
what it remembers and has no longer. So a removed operation can come back only by an engine
that has it as a new one.
-/
import Bittery.Client.ItemSyncStretches
import Mathlib.Data.Fintype.Defs

namespace Bittery

open Lib

/-- The event takes an operation out of the document. -/
def QueueEvent.removes (operation : String) : QueueEvent → Bool
  | .acknowledged op | .cancelled op => op = operation
  | .cleared operations => operations.contains operation
  | _ => false

namespace Engine

/-- Whether the next write adds an operation to the document, as a new one. -/
def adds (e : Engine) (operation : String) : Bool :=
  match e.jobs with
  | ⟨_, .writing desired known⟩ :: _ =>
    hasKey CommandRef.operation operation desired && !hasKey ItemSyncCommand.operation operation known
  | ⟨_, .written ..⟩ :: _ | ⟨_, .acknowledged ..⟩ :: _ => false
  | _ => e.hasOperation operation && !e.remembers operation

/-- Whether the next write deletes an operation from the document, as one that the queue has no longer. -/
def deletes (e : Engine) (operation : String) : Bool :=
  match e.jobs with
  | ⟨_, .writing desired known⟩ :: _ =>
    hasKey ItemSyncCommand.operation operation known && !hasKey CommandRef.operation operation desired
  | ⟨_, .written ..⟩ :: _ | ⟨_, .acknowledge ..⟩ :: _ | ⟨_, .acknowledged ..⟩ :: _ => false
  | _ => e.remembers operation && !e.hasOperation operation

/-- Whether the update of the document that comes now takes an operation out of it. -/
def takesOut (e : Engine) (operation : String) : Bool :=
  match e.jobs with
  | ⟨_, .writing desired known⟩ :: _ =>
    hasKey ItemSyncCommand.operation operation known && !hasKey CommandRef.operation operation desired
  | ⟨_, .acknowledge mutation _⟩ :: _ => mutation.operation = operation
  | ⟨_, .clear⟩ :: _ => true
  | _ => false

/-- One call at a time: it waits for the only write, if there is one. -/
structure OneCall (e : Engine) : Prop where
  idle : e.call 0 = none → e.jobs = []
  busy : ∀ w, e.call 0 = some w → e.jobs = [] ∨ ∃ job, e.jobs = [job] ∧ w.job = some job.id
  others : ∀ call, call ≠ 0 → e.call call = none
  clearing : ∀ id rest, e.jobs = ⟨id, .clear⟩ :: rest → e.queue = none

end Engine

namespace QueueState

variable {ι : Type} [DecidableEq ι]

/-- The operation was acknowledged, cancelled or cleared. -/
def Removed (q : QueueState ι) (operation : String) : Prop := ∃ event ∈ q.log, event.removes operation = true

/-- An engine runs its methods one at a time: they are all the same call. -/
def OneAtATime (_ : QueueState ι) : QueueLabel ι → Prop
  | .call _ _ s => s.call = 0
  | _ => True

/-- One method at a time; no operation is queued anew once it was removed, and none is removed
while another engine is about to add it. -/
def NoReuse (q : QueueState ι) : QueueLabel ι → Prop
  | .call i (.enqueue m) s | .call i (.stage m _) s =>
    s.call = 0 ∧ (m.operation ∈ q.left → (q.engine i).hasOperation m.operation = true)
  | .call _ _ s => s.call = 0
  | .resume i (.copy (.ok (some copy))) _ =>
    copy.operation ∈ q.left → (q.engine i).hasOperation copy.operation = true
  | .persist i _ => ∀ operation ∈ q.document.map ItemSyncCommand.operation, (q.engine i).takesOut operation = true →
    ∀ j, j ≠ i → (q.engine j).adds operation = false
  | _ => True

/-- An engine whose next write neither brings a removed operation back nor loses one. -/
structure Harmless (q : QueueState ι) (e : Engine) : Prop where
  adds : ∀ operation ∈ q.left, e.adds operation = false
  deletes : ∀ operation, e.deletes operation = true → q.Removed operation
  acknowledges : ∀ id mutation version rest, e.jobs = ⟨id, .acknowledge mutation version⟩ :: rest → q.Removed mutation.operation

/-- **The invariant.** -/
structure Merging (q : QueueState ι) : Prop where
  oneCall : ∀ i, (q.engine i).OneCall
  harmless : ∀ i, q.Harmless (q.engine i)
  gone : ∀ operation ∈ q.left, hasKey ItemSyncCommand.operation operation q.document = false
  removed : ∀ operation ∈ q.left, q.Removed operation

end QueueState

/-! ## Stretches -/

namespace Engine

variable {e : Engine} {operation : String}

/-- No update of the document is under way. -/
def Resting (e : Engine) : Prop :=
  ∀ id p rest, e.jobs = ⟨id, p⟩ :: rest → p = .write ∨ p = .clear ∨ ∃ mutation version, p = .acknowledge mutation version

theorem Resting.adds (h : e.Resting) : e.adds operation = (e.hasOperation operation && !e.remembers operation) := by
  unfold Engine.adds
  split
  · next id desired known rest hjobs => rcases h id _ rest hjobs with h | h | ⟨_, _, h⟩ <;> cases h
  · next id desired reconciled elsewhere rest hjobs => rcases h id _ rest hjobs with h | h | ⟨_, _, h⟩ <;> cases h
  · next id reconciled conflicted rest hjobs => rcases h id _ rest hjobs with h | h | ⟨_, _, h⟩ <;> cases h
  · rfl

theorem Resting.deletes (h : e.Resting) (hd : e.deletes operation = true) :
    e.remembers operation = true ∧ e.hasOperation operation = false := by
  unfold Engine.deletes at hd
  split at hd
  · next id desired known rest hjobs => rcases h id _ rest hjobs with h | h | ⟨_, _, h⟩ <;> cases h
  all_goals first | cases hd | simpa using hd

theorem resting_of_nil (h : e.jobs = []) : e.Resting := fun id p rest hjobs => by rw [h] at hjobs; cases hjobs

theorem resting_of_write {id : Nat} (h : e.jobs = [⟨id, .write⟩]) : e.Resting := fun id' p rest hjobs => by
  rw [h] at hjobs; cases hjobs; exact .inl rfl

theorem deletes_of_nil (h : e.jobs = []) : e.deletes operation = (e.remembers operation && !e.hasOperation operation) := by
  simp [Engine.deletes, h]

end Engine

namespace QueueState

variable {ι : Type} [DecidableEq ι] {q : QueueState ι} {i : ι} {s : Surroundings} {stretch : Stretch} {effects : List QueueEffect}

omit [DecidableEq ι] in
theorem Removed.of_log {q' : QueueState ι} {operation : String} (h : q.Removed operation)
    (hlog : ∀ event ∈ q.log, event ∈ q'.log) : q'.Removed operation := by
  obtain ⟨event, hevent, hremoves⟩ := h
  exact ⟨event, hlog event hevent, hremoves⟩

theorem mem_log_runStretch (call : Nat) {event : QueueEvent} (h : event ∈ q.log) : event ∈ (q.runStretch i call stretch).log :=
  mem_log_effects h

/-- The events of a stretch's first effect. -/
theorem mem_log_runStretch_first (call : Nat) {x : QueueEffect} {await : Option EngineAwait} {event : QueueEvent}
    (h : event ∈ (q.engine i).events x) : event ∈ (q.runStretch i call ⟨x :: effects, await⟩).log :=
  @mem_log_effects _ _ (q.applyEffect i x) i effects event (List.mem_append_left _ h)

/-- A stretch of the only call, after which the next write is as harmless as before. -/
theorem Merging.runStretch (h : q.Merging) {e : Engine} (he : e = (q.engine i).exec stretch.effects)
    (hjobs : e.jobs = [] ∨ ∃ job, e.jobs = [job] ∧ ∃ w, stretch.await = some w ∧ w.job = some job.id)
    (hclearing : ∀ id rest, e.jobs = ⟨id, .clear⟩ :: rest → e.queue = none)
    (hadds : ∀ operation ∈ q.left, e.adds operation = false)
    (hdeletes : ∀ operation, e.deletes operation = true → (q.runStretch i 0 stretch).Removed operation)
    (hacks : ∀ id mutation version rest, e.jobs = ⟨id, .acknowledge mutation version⟩ :: rest →
      (q.runStretch i 0 stretch).Removed mutation.operation) :
    (q.runStretch i 0 stretch).Merging := by
  have hengine := @runStretch_engine_self _ _ q i 0 stretch
  rw [← he] at hengine
  have hstored := @effects_document _ _ q i stretch.effects
  have hlog : ∀ event ∈ q.log, event ∈ (q.runStretch i 0 stretch).log := fun event hevent => mem_log_runStretch 0 hevent
  have hcall : ∀ call, call ≠ 0 → e.call call = none := fun call hne => by
    rw [he]
    exact (congrFun Engine.exec_call call).trans ((h.oneCall i).others call hne)
  refine ⟨fun j => ?_, fun j => ?_, fun operation hop => ?_, fun operation hop => ?_⟩
  · by_cases hj : j = i
    · subst hj
      rw [hengine]
      refine ⟨fun hidle => ?_, fun w hw => ?_, fun call hne => ?_, hclearing⟩
      · rcases hjobs with hjobs | ⟨job, -, w, hw, -⟩
        · exact hjobs
        · simp [hw] at hidle
      · rcases hjobs with hjobs | ⟨job, hjobs, w', hw', hjob⟩
        · exact .inl hjobs
        · simp only [Function.update_self, hw', Option.some.injEq] at hw
          exact .inr ⟨job, hjobs, hw ▸ hjob⟩
      · simpa only [Function.update_of_ne hne] using hcall call hne
    · rw [runStretch_engine_of_ne hj]
      exact h.oneCall j
  · by_cases hj : j = i
    · subst hj
      rw [hengine]
      exact ⟨fun operation hop => hadds operation (hstored.2 ▸ hop), hdeletes, hacks⟩
    · rw [runStretch_engine_of_ne hj]
      exact ⟨fun operation hop => (h.harmless j).adds operation (hstored.2 ▸ hop),
        fun operation hd => ((h.harmless j).deletes operation hd).of_log hlog,
        fun id mutation version rest hjobs => ((h.harmless j).acknowledges id mutation version rest hjobs).of_log hlog⟩
  · have hgone := h.gone operation (hstored.2 ▸ hop)
    exact (congrArg (hasKey ItemSyncCommand.operation operation) hstored.1).trans hgone
  · exact (h.removed operation (hstored.2 ▸ hop)).of_log hlog

/-- A stretch that changes the queue at first, and then no list of operations: it ends with a
write of the queue, or without one. -/
theorem Merging.requeue (h : q.Merging) (effects : List QueueEffect) (rest : Stretch)
    (hids : Engine.SameIds ((q.engine i).exec effects) (((q.engine i).exec effects).exec rest.effects))
    (hjobs : (((q.engine i).exec effects).exec rest.effects).jobs = [] ∨
      ∃ id, (((q.engine i).exec effects).exec rest.effects).jobs = [⟨id, .write⟩] ∧
        ∃ w, rest.await = some w ∧ w.job = some id)
    (hadds : ∀ operation ∈ q.left, ((q.engine i).exec effects).hasOperation operation = true →
      ((q.engine i).exec effects).remembers operation = true)
    (hdeletes : ∀ operation, ((q.engine i).exec effects).remembers operation = true →
      ((q.engine i).exec effects).hasOperation operation = false →
        (q.runStretch i 0 ⟨effects ++ rest.effects, rest.await⟩).Removed operation) :
    (q.runStretch i 0 ⟨effects ++ rest.effects, rest.await⟩).Merging := by
  generalize he : ((q.engine i).exec effects).exec rest.effects = e at hids hjobs
  have hresting : e.Resting := by
    rcases hjobs with hjobs | ⟨id, hjobs, -⟩
    · exact Engine.resting_of_nil hjobs
    · exact Engine.resting_of_write hjobs
  refine @runStretch _ _ q i ⟨effects ++ rest.effects, rest.await⟩ h e ?_ ?_ ?_ ?_ ?_ ?_
  · rw [← he, Engine.exec_append]
  · rcases hjobs with hjobs | ⟨id, hjobs, w, hw, hjob⟩
    · exact .inl hjobs
    · exact .inr ⟨_, hjobs, w, hw, hjob⟩
  · intro id rest' hclear
    rcases hjobs with hjobs | ⟨id', hjobs, -⟩ <;> rw [hjobs] at hclear <;> cases hclear
  · intro operation hop
    rw [hresting.adds, hids.hasOperation, hids.remembers]
    have := hadds operation hop
    simp only [Bool.and_eq_false_iff, Bool.not_eq_eq_eq_not, Bool.not_false]
    cases hhas : ((q.engine i).exec effects).hasOperation operation with
    | false => exact .inl rfl
    | true => exact .inr (this hhas)
  · intro operation hd
    obtain ⟨hremembers, hhas⟩ := hresting.deletes hd
    exact hdeletes operation (hids.remembers ▸ hremembers) (hids.hasOperation ▸ hhas)
  · intro id mutation version rest' hack
    rcases hjobs with hjobs | ⟨id', hjobs, -⟩ <;> rw [hjobs] at hack <;> cases hack

omit [DecidableEq ι] in
/-- An engine that has nothing to write remembers what it has of the removed operations. -/
theorem Merging.remembers_of_left (h : q.Merging) (hjobs : (q.engine i).jobs = []) {operation : String}
    (hop : operation ∈ q.left) (hhas : (q.engine i).hasOperation operation = true) :
    (q.engine i).remembers operation = true := by
  have hadds := (h.harmless i).adds operation hop
  rw [(Engine.resting_of_nil hjobs).adds, hhas] at hadds
  simpa using hadds

omit [DecidableEq ι] in
theorem Merging.removed_of_missing (h : q.Merging) (hjobs : (q.engine i).jobs = []) {operation : String}
    (hremembers : (q.engine i).remembers operation = true) (hhas : (q.engine i).hasOperation operation = false) :
    q.Removed operation :=
  (h.harmless i).deletes operation (by rw [Engine.deletes_of_nil hjobs, hremembers, hhas]; rfl)

/-- A plain stretch, after effects that leave the lists of operations alone. -/
theorem Merging.plain (h : q.Merging) (effects : List QueueEffect) (hjobs : (q.engine i).jobs = []) {rest : Stretch}
    (heffects : (q.engine i).exec effects = q.engine i) (hrest : (q.engine i).Plain rest) :
    (q.runStretch i 0 ⟨effects ++ rest.effects, rest.await⟩).Merging := by
  obtain ⟨hids, hafter⟩ := hrest.exec
  refine h.requeue effects rest ?_ ?_ ?_ ?_ <;> rw [heffects]
  · exact hids
  · rcases hafter with hafter | ⟨hafter, w, hw, hjob⟩
    · exact .inl (hafter.trans hjobs)
    · exact .inr ⟨_, by rw [hafter, hjobs]; rfl, w, hw, hjob⟩
  · exact fun operation hop => h.remembers_of_left hjobs hop
  · intro operation hremembers hhas
    exact (h.removed_of_missing hjobs hremembers hhas).of_log fun event hevent => mem_log_runStretch 0 hevent

/-- The queue is changed, and written. -/
theorem Merging.written (h : q.Merging) (effects : List QueueEffect) (hjobs : ((q.engine i).exec effects).jobs = []) (w : EngineAwait)
    (hw : w.job = some ((q.engine i).exec effects).nextJob)
    (hadds : ∀ operation ∈ q.left, ((q.engine i).exec effects).hasOperation operation = true →
      ((q.engine i).exec effects).remembers operation = true)
    (hdeletes : ∀ operation, ((q.engine i).exec effects).remembers operation = true →
      ((q.engine i).exec effects).hasOperation operation = false →
        (q.runStretch i 0 ⟨effects ++ [.persist], some w⟩).Removed operation) :
    (q.runStretch i 0 ⟨effects ++ [.persist], some w⟩).Merging := by
  refine h.requeue effects ⟨[.persist], some w⟩ ⟨rfl, rfl, rfl⟩ (.inr ⟨_, ?_, w, rfl, hw⟩) hadds hdeletes
  simp [Engine.apply, Engine.schedule, hjobs]

/-- A command is put into the queue that has not been removed. -/
theorem Merging.pushing (h : q.Merging) (hjobs : (q.engine i).jobs = []) {c : ItemSyncCommand} {await : Nat → EngineAwait}
    (hjob : ∀ job, (await job).job = some job) (hnew : (q.engine i).hasOperation c.operation = false)
    (hfresh : c.operation ∈ q.left → (q.engine i).hasOperation c.operation = true) :
    (q.runStretch i 0 ((q.engine i).pushing s c await)).Merging := by
  have hpersisted : ((q.engine i).push c).persisted = (q.engine i).persisted := Engine.push_persisted c
  have hremembers : ∀ operation, ((q.engine i).push c).remembers operation = (q.engine i).remembers operation :=
    fun operation => by rw [Engine.remembers, hpersisted]; rfl
  refine @written _ _ q i h [.push s.call c] ?_ (await (q.engine i).nextJob) ?_ ?_ ?_
  · exact (Engine.push_jobs c).trans hjobs
  · exact (hjob _).trans (congrArg some (Engine.push_nextJob c).symm)
  · intro operation hop hhas
    have hne : c.operation ≠ operation := fun heq => by
      rw [heq] at hnew hfresh
      exact absurd (hfresh hop) (by rw [hnew]; decide)
    refine (hremembers operation).trans (h.remembers_of_left hjobs hop ?_)
    have hhas' := Engine.hasOperation_push.symm.trans hhas
    simpa [hne] using hhas'
  · intro operation hknown hhas
    have hhas' := Engine.hasOperation_push.symm.trans hhas
    simp only [Bool.or_eq_false_iff] at hhas'
    exact (h.removed_of_missing hjobs ((hremembers operation).symm.trans hknown) hhas'.1).of_log
      fun event hevent => mem_log_runStretch 0 hevent

/-- An engine that has neither operations nor a memory of any. -/
theorem Merging.forgets (h : q.Merging) (effects : List QueueEffect) (hjobs : ((q.engine i).exec effects).jobs = [])
    (hqueue : ((q.engine i).exec effects).queue = none) (hpersisted : ((q.engine i).exec effects).persisted = [])
    {w : EngineAwait} : (q.runStretch i 0 ⟨effects, some w⟩).Merging := by
  have hhas : ∀ operation, ((q.engine i).exec effects).hasOperation operation = false := fun operation => by
    simp [Engine.hasOperation, Engine.commands, hqueue]
  have hremembers : ∀ operation, ((q.engine i).exec effects).remembers operation = false := fun operation => by
    simp [Engine.remembers, hpersisted]
  rw [← List.append_nil effects]
  refine h.requeue effects ⟨[], some w⟩ ⟨rfl, rfl, rfl⟩ (.inl hjobs) ?_ ?_
  · intro operation _ hop
    exact absurd hop (by rw [hhas operation]; decide)
  · intro operation hop
    exact absurd hop (by rw [hremembers operation]; decide)

/-- The document is read: the engine has, and remembers, what is in it. -/
theorem Merging.loaded (h : q.Merging) (hjobs : (q.engine i).jobs = []) {document : List ItemSyncCommand} {rest : Stretch}
    (hrest : ((q.engine i).load document).Plain rest) :
    (q.runStretch i 0 (Engine.Then (.load document) rest)).Merging := by
  by_cases hempty : document = []
  · rw [Engine.load, if_pos hempty] at hrest
    exact h.plain [.load document] hjobs (by simp [Engine.apply, Engine.load, hempty]) hrest
  · have hload := fun operation => @Engine.load_of_ne_nil (q.engine i) document operation hempty
    obtain ⟨hids, hafter⟩ := hrest.exec
    have hloaded : ((q.engine i).load document).jobs = [] := by
      rw [Engine.load, if_neg hempty]
      exact Engine.allocate_frame.2.2.2.1.trans hjobs
    refine h.requeue [.load document] rest hids ?_ ?_ ?_
    · rcases hafter with hafter | ⟨hafter, w, hw, hjob⟩
      · exact .inl (hafter.trans hloaded)
      · exact .inr ⟨_, hafter.trans (by rw [hloaded]; rfl), w, hw, hjob⟩
    · intro operation _ hhas
      exact (hload operation).2.trans ((hload operation).1.symm.trans hhas)
    · intro operation hremembers hhas
      have : true = false := hremembers.symm.trans ((hload operation).2.trans ((hload operation).1.symm.trans hhas))
      cases this

/-- A command is cancelled: of the operations in the queue, only this one may be missing. -/
theorem Merging.cancelled (h : q.Merging) (hjobs : (q.engine i).jobs = []) {queue : QueueRef} {operation : String}
    (hqueue : (q.engine i).queue = some queue) :
    (q.runStretch i 0 ⟨[.cancel queue operation, .persist], some (.cancelWrite (q.engine i).nextJob)⟩).Merging := by
  have hcommands : ((q.engine i).apply (.cancel queue operation)).commands =
      (q.engine i).commands.eraseIdx ((q.engine i).commands.findIdx fun r => r.operation = operation) := by
    simp [Engine.apply, Engine.commands, Engine.setArray, hqueue]
  refine @written _ _ q i h [.cancel queue operation] hjobs (.cancelWrite (q.engine i).nextJob) rfl ?_ ?_
  · intro operation' hop hhas
    obtain ⟨r, hr, hkey⟩ := hasKey_eq_true.mp hhas
    refine h.remembers_of_left hjobs hop (hasKey_eq_true.mpr ⟨r, ?_, hkey⟩)
    have hr' : r ∈ ((q.engine i).apply (.cancel queue operation)).commands := hr
    rw [hcommands] at hr'
    exact List.mem_of_mem_eraseIdx hr'
  · intro operation' hremembers hhas
    by_cases heq : operation' = operation
    · exact ⟨.cancelled operation, mem_log_runStretch_first 0 List.mem_cons_self, by simp [QueueEvent.removes, heq]⟩
    · refine (h.removed_of_missing hjobs hremembers ?_).of_log fun event hevent => mem_log_runStretch 0 hevent
      rw [Engine.hasOperation, hasKey_eq_false]
      intro r hr hkey
      have hmem : r ∈ ((q.engine i).apply (.cancel queue operation)).commands := by
        rw [hcommands, List.mem_eraseIdx_iff_getElem]
        obtain ⟨k, hk, rfl⟩ := List.getElem_of_mem hr
        refine ⟨k, hk, fun heqk => heq ?_, rfl⟩
        subst heqk
        have hfound := List.findIdx_getElem (w := hk)
        simpa [hkey] using hfound
      exact absurd hkey (hasKey_eq_false.mp hhas r hmem)

/-- The account is cleared: all that the engine remembers is deleted. -/
theorem Merging.cleared (h : q.Merging) (hjobs : (q.engine i).jobs = []) :
    (q.runStretch i 0 ⟨[.deleteQueue, .persist], some (.clearWrite (q.engine i).nextJob)⟩).Merging := by
  refine @written _ _ q i h [.deleteQueue] hjobs (.clearWrite (q.engine i).nextJob) rfl ?_ ?_
  · intro operation _ hhas
    cases hhas
  · intro operation hremembers _
    obtain ⟨c, hc, hkey⟩ := hasKey_eq_true.mp hremembers
    refine ⟨.cleared (q.engine i).operations, mem_log_runStretch_first 0 List.mem_cons_self, ?_⟩
    rw [QueueEvent.removes, List.contains_iff_mem]
    exact List.mem_append_right _ (List.mem_map.mpr ⟨c, hc, hkey⟩)

/-- All accounts are cleared. -/
theorem Merging.clearedAll (h : q.Merging) (hjobs : (q.engine i).jobs = []) :
    (q.runStretch i 0 ⟨[.note (.cleared (q.engine i).operations), .clearMaps, .clearStored],
      some (.clearWrite (q.engine i).nextJob)⟩).Merging := by
  refine @runStretch _ _ q i _ h _ rfl ?_ ?_ ?_ ?_ ?_
  · exact .inr ⟨⟨(q.engine i).nextJob, .clear⟩, by simp [Engine.apply, Engine.schedule, hjobs], _, rfl, rfl⟩
  · intro id rest _
    rfl
  · intro operation _
    simp [Engine.adds, Engine.apply, Engine.schedule, hjobs, Engine.hasOperation, Engine.commands]
  · intro operation hd
    simp [Engine.deletes, Engine.apply, Engine.schedule, hjobs, Engine.remembers] at hd
  · intro id mutation version rest hack
    simp [Engine.apply, Engine.schedule, hjobs] at hack

/-- A command is acknowledged: it leaves the queue before it leaves the document. -/
theorem Merging.acknowledged (h : q.Merging) (hjobs : (q.engine i).jobs = []) {queue : QueueRef} {attempted : List String}
    {index : Nat} {mutation : CommandRef} {version : Option Nat} :
    (q.runStretch i 0 ⟨[.acknowledge queue index mutation version],
      some (.acknowledgeWrite queue attempted (q.engine i).nextJob)⟩).Merging := by
  have hafter : ((q.engine i).exec [.acknowledge queue index mutation version]).jobs =
      [⟨(q.engine i).nextJob, .acknowledge mutation version⟩] := by
    simp [Engine.apply, Engine.schedule, Engine.setArray, hjobs]
  have hresting : ((q.engine i).exec [.acknowledge queue index mutation version]).Resting := by
    intro id p rest hjobs'
    rw [hafter] at hjobs'
    cases hjobs'
    exact .inr (.inr ⟨mutation, version, rfl⟩)
  refine @runStretch _ _ q i _ h _ rfl (.inr ⟨_, hafter, _, rfl, rfl⟩) ?_ ?_ ?_ ?_
  · intro id rest hclear
    rw [hafter] at hclear
    cases hclear
  · intro operation hop
    rw [hresting.adds]
    cases hhas : ((q.engine i).exec [.acknowledge queue index mutation version]).hasOperation operation with
    | false => rfl
    | true =>
      have hhas' : (q.engine i).hasOperation operation = true := by
        obtain ⟨r, hr, hkey⟩ := hasKey_eq_true.mp hhas
        refine hasKey_eq_true.mpr ⟨r, ?_, hkey⟩
        simp only [Engine.exec_cons, Engine.exec_nil, Engine.apply, Engine.commands, Engine.schedule, Engine.setArray] at hr ⊢
        cases hqueue : (q.engine i).queue with
        | none => simp [hqueue] at hr
        | some queue' =>
          simp only [hqueue, Option.elim_some] at hr ⊢
          by_cases heq : queue' = queue
          · subst heq
            rw [Function.update_self] at hr
            exact List.mem_of_mem_eraseIdx hr
          · rwa [Function.update_of_ne heq] at hr
      have hremembers := h.remembers_of_left hjobs hop hhas'
      exact Bool.and_eq_false_iff.mpr (.inr (by rw [Bool.not_eq_false']; exact hremembers))
  · intro operation hd
    rw [Engine.deletes, hafter] at hd
    cases hd
  · intro id mutation' version' rest hack
    rw [hafter] at hack
    cases hack
    exact ⟨.acknowledged mutation.operation, mem_log_runStretch_first 0 List.mem_cons_self, by simp [QueueEvent.removes]⟩

/-- **What follows an await keeps the invariant.** -/
theorem Merging.resume (h : q.Merging) {w : EngineAwait} {answer : QueueAnswer} (hresumes : (q.engine i).Resumes s w answer stretch)
    (hcall : (q.engine i).call 0 = some w) (hfinished : w.job.all (q.engine i).finished = true)
    (hno : q.NoReuse (.resume i answer s)) : (q.runStretch i 0 stretch).Merging := by
  have hjobs : (q.engine i).jobs = [] := by
    rcases (h.oneCall i).busy w hcall with hjobs | ⟨job, hjobs, hjob⟩
    · exact hjobs
    · simp [hjob, Engine.finished, hjobs] at hfinished
  cases hresumes with
  | plain hrest => exact h.plain [] hjobs rfl hrest
  | @enqueued operation job caller rest hrest => exact h.plain [.note (.resolved s.call operation)] hjobs rfl hrest
  | @settled operation job caller rest hrest => exact h.plain [.note (.resolved s.call operation)] hjobs rfl hrest
  | @staged operation job => exact h.plain [.note (.resolved s.call operation)] hjobs rfl Engine.plain_over
  | @copyFound mutation after copy rest hfound hrest => exact h.plain [.note (.found copy.operation)] hjobs rfl hrest
  | copyPushed hnew => exact h.pushing hjobs (fun _ => rfl) hnew hno
  | acknowledged => exact h.acknowledged hjobs
  | restored => exact h.forgets [.clearMaps] hjobs rfl rfl
  | loaded hrest => exact h.loaded hjobs hrest

/-- **The beginning of a method keeps the invariant.** -/
theorem Merging.begin (h : q.Merging) {method : QueueCall} (hbegins : (q.engine i).Begins s method stretch)
    (hcall : (q.engine i).call 0 = none) (hno : q.NoReuse (.call i method s)) : (q.runStretch i 0 stretch).Merging := by
  have hjobs := (h.oneCall i).idle hcall
  cases hbegins with
  | plain hrest => exact h.plain [] hjobs rfl hrest
  | found _ _ => exact h.plain [.note (.found _)] hjobs rfl Engine.plain_over
  | enqueued hnew => exact h.pushing hjobs (fun _ => rfl) hnew hno.2
  | staged hnew hoperation _ =>
    exact h.pushing hjobs (fun _ => rfl) (hoperation ▸ hnew) (hoperation ▸ hno.2)
  | cancelled hqueue => exact h.cancelled hjobs hqueue
  | restored =>
    refine h.requeue [] ⟨[], some (.restoreTail ((q.engine i).nextJob - 1))⟩ ⟨rfl, rfl, rfl⟩ (.inl hjobs) ?_ ?_
    · exact fun operation hop => h.remembers_of_left hjobs hop
    · intro operation hremembers hhas
      exact (h.removed_of_missing hjobs hremembers hhas).of_log fun event hevent => mem_log_runStretch 0 hevent
  | cleared => exact h.cleared hjobs
  | clearedAll => exact h.clearedAll hjobs

end QueueState

/-! ## Updates of the document -/

namespace Engine

variable {e e' : Engine} {id : Nat} {p : Persistence} {rest : List PersistenceJob} {operation : String}

theorem OneCall.only (h : e.OneCall) (hjobs : e.jobs = ⟨id, p⟩ :: rest) :
    rest = [] ∧ ∃ w, e.call 0 = some w ∧ w.job = some id := by
  cases hcall : e.call 0 with
  | none => rw [h.idle hcall] at hjobs; cases hjobs
  | some w =>
    rcases h.busy w hcall with hnil | ⟨job, hjob, hw⟩
    · rw [hnil] at hjobs; cases hjobs
    · rw [hjob] at hjobs; cases hjobs; exact ⟨rfl, w, rfl, hw⟩

/-- The write goes on, or is through. -/
theorem OneCall.persist (h : e.OneCall) (hjobs : e.jobs = ⟨id, p⟩ :: rest) (hcall : e'.call = e.call)
    (hjobs' : (∃ p', e'.jobs = ⟨id, p'⟩ :: rest ∧ p' ≠ .clear) ∨ e'.jobs = rest) : e'.OneCall := by
  obtain ⟨rfl, w, hw, hjob⟩ := h.only hjobs
  refine ⟨fun hidle => ?_, fun w' hw' => ?_, fun call hne => ?_, fun id' rest' hclear => ?_⟩
  · rw [hcall, hw] at hidle; cases hidle
  · rw [hcall, hw] at hw'; cases hw'
    rcases hjobs' with ⟨p', hjobs', -⟩ | hjobs'
    · exact .inr ⟨⟨id, p'⟩, hjobs', hjob⟩
    · exact .inl hjobs'
  · rw [hcall]; exact h.others call hne
  · rcases hjobs' with ⟨p', hjobs', hne⟩ | hjobs' <;> rw [hjobs'] at hclear <;> cases hclear
    exact absurd rfl hne

/-- What is in the queue and remembered as stored is neither added nor deleted. -/
theorem quiet_adopt (reconciled : List CommandRef) (hjobs : e'.jobs = []) (hcommands : e'.commands = reconciled)
    (hpersisted : e'.persisted = reconciled.map e'.command) :
    e'.adds operation = false ∧ e'.deletes operation = false := by
  have hremembers : e'.remembers operation = e'.hasOperation operation := by
    rw [remembers, hpersisted, hasKey_map_command, hasOperation, hcommands]
  rw [(resting_of_nil hjobs).adds, deletes_of_nil hjobs, hremembers]
  cases e'.hasOperation operation <;> exact ⟨rfl, rfl⟩

end Engine

namespace QueueState

variable {ι : Type} [DecidableEq ι] {q q' : QueueState ι} {i : ι} {s : Surroundings} {operation : String}

omit [DecidableEq ι] in
theorem mem_left_store {document : List ItemSyncCommand} : operation ∈ (q.store document).left ↔
    operation ∈ q.left ∨ hasKey ItemSyncCommand.operation operation q.document = true ∧
      hasKey ItemSyncCommand.operation operation document = false := by
  simp only [store, List.mem_append, List.mem_filter, List.mem_map, hasKey_eq_true, Bool.not_eq_eq_eq_not, Bool.not_true]
  exact or_comm

/-- A write that goes on without an update of the document. -/
theorem Merging.goesOn (h : q.Merging) {e : Engine} (hone : e.OneCall)
    (hadds : ∀ operation ∈ q.left, e.adds operation = false)
    (hdeletes : ∀ operation, e.deletes operation = true → (q.engine i).deletes operation = true)
    (hacks : ∀ id mutation version rest, e.jobs ≠ ⟨id, .acknowledge mutation version⟩ :: rest) : (q.setEngine i e).Merging := by
  refine ⟨fun j => ?_, fun j => ?_, h.gone, h.removed⟩
  · by_cases hj : j = i
    · subst hj; rw [setEngine_self]; exact hone
    · rw [setEngine_of_ne hj]; exact h.oneCall j
  · by_cases hj : j = i
    · subst hj
      rw [setEngine_self]
      exact ⟨hadds, fun operation hd => (h.harmless j).deletes operation (hdeletes operation hd),
        fun id mutation version rest hjobs => absurd hjobs (hacks id mutation version rest)⟩
    · rw [setEngine_of_ne hj]
      exact ⟨(h.harmless j).adds, (h.harmless j).deletes, (h.harmless j).acknowledges⟩

/-- **An update of the document**: it adds only what the engine has as new, and what it takes
out was removed, and no other engine is about to add it. -/
theorem Merging.updates (h : q.Merging) (hno : q.NoReuse (.persist i s))
    (hothers : ∀ j, j ≠ i → q'.engine j = q.engine j) (hstored : q'.left = (q.store q'.document).left)
    (hlog : ∀ event ∈ q.log, event ∈ q'.log)
    (hadded : ∀ operation, hasKey ItemSyncCommand.operation operation q'.document = true →
      hasKey ItemSyncCommand.operation operation q.document = true ∨ (q.engine i).adds operation = true)
    (htaken : ∀ operation, hasKey ItemSyncCommand.operation operation q.document = true →
      hasKey ItemSyncCommand.operation operation q'.document = false →
        (q.engine i).takesOut operation = true ∧ q'.Removed operation)
    (hone : (q'.engine i).OneCall) (hadds : ∀ operation, (q'.engine i).adds operation = false)
    (hdeletes : ∀ operation, (q'.engine i).deletes operation = true → (q.engine i).deletes operation = true)
    (hacks : ∀ id mutation version rest, (q'.engine i).jobs ≠ ⟨id, .acknowledge mutation version⟩ :: rest) : q'.Merging := by
  have hleft : ∀ operation, operation ∈ q'.left ↔ operation ∈ q.left ∨
      hasKey ItemSyncCommand.operation operation q.document = true ∧
        hasKey ItemSyncCommand.operation operation q'.document = false := fun operation => by
    rw [hstored]; exact mem_left_store
  refine ⟨fun j => ?_, fun j => ?_, fun operation hop => ?_, fun operation hop => ?_⟩
  · by_cases hj : j = i
    · subst hj; exact hone
    · rw [hothers j hj]; exact h.oneCall j
  · by_cases hj : j = i
    · subst hj
      exact ⟨fun operation _ => hadds operation,
        fun operation hd => ((h.harmless j).deletes operation (hdeletes operation hd)).of_log hlog,
        fun id mutation version rest hjobs => absurd hjobs (hacks id mutation version rest)⟩
    · rw [hothers j hj]
      refine ⟨fun operation hop => ?_, fun operation hd => ((h.harmless j).deletes operation hd).of_log hlog,
        fun id mutation version rest hjobs => ((h.harmless j).acknowledges id mutation version rest hjobs).of_log hlog⟩
      rcases (hleft operation).mp hop with hop | ⟨hwas, his⟩
      · exact (h.harmless j).adds operation hop
      · obtain ⟨c, hc, hkey⟩ := hasKey_eq_true.mp hwas
        exact hno operation (List.mem_map.mpr ⟨c, hc, hkey⟩) (htaken operation hwas his).1 j hj
  · rcases (hleft operation).mp hop with hop | ⟨-, his⟩
    · cases hhas : hasKey ItemSyncCommand.operation operation q'.document with
      | false => rfl
      | true =>
        rcases hadded operation hhas with hwas | hadds
        · rw [h.gone operation hop] at hwas; cases hwas
        · rw [(h.harmless i).adds operation hop] at hadds; cases hadds
    · exact his
  · rcases (hleft operation).mp hop with hop | ⟨hwas, his⟩
    · exact (h.removed operation hop).of_log hlog
    · exact (htaken operation hwas his).2

/-- The updater of `writeQueue`. -/
theorem Merging.updateQueue (h : q.Merging) (hno : q.NoReuse (.persist i s)) {desired : List CommandRef}
    {known : List ItemSyncCommand} {id : Nat} {rest : List PersistenceJob}
    (hjobs : (q.engine i).jobs = ⟨id, .writing desired known⟩ :: rest) : (q.updateQueue i desired known id rest).Merging := by
  have hentries : ∀ operation, hasKey ItemSyncCommand.operation operation (q.updateQueue i desired known id rest).document =
      (hasKey ItemSyncCommand.operation operation q.document &&
          (!hasKey ItemSyncCommand.operation operation known || hasKey CommandRef.operation operation desired) ||
        hasKey CommandRef.operation operation desired && !hasKey ItemSyncCommand.operation operation known) := by
    intro operation
    rw [← @Engine.hasKey_allocate (q.engine i) q.document, ← Engine.hasKey_mergeQueue]
    exact Engine.hasKey_map_command
  have hself : (q.updateQueue i desired known id rest).engine i =
      { ((q.engine i).allocate q.document).1 with
        jobs := ⟨id, .written desired (((q.engine i).allocate q.document).1.mergeQueue desired
          ((q.engine i).allocate q.document).2 known).entries (((q.engine i).allocate q.document).1.mergeQueue desired
          ((q.engine i).allocate q.document).2 known).gone⟩ :: rest } := setEngine_self _
  refine h.updates hno (fun j hj => setEngine_of_ne hj _) rfl (fun _ hevent => hevent) ?_ ?_ ?_ ?_ ?_ ?_
  · intro operation hhas
    have hhas' := (hentries operation).symm.trans hhas
    simp only [Engine.adds, hjobs]
    cases hdoc : hasKey ItemSyncCommand.operation operation q.document with
    | true => exact .inl rfl
    | false => exact .inr (by simpa [hdoc] using hhas')
  · intro operation hwas his
    have his' := (hentries operation).symm.trans his
    rw [hwas] at his'
    have hout : (hasKey ItemSyncCommand.operation operation known && !hasKey CommandRef.operation operation desired) = true := by
      cases hknown : hasKey ItemSyncCommand.operation operation known <;>
        cases hdesired : hasKey CommandRef.operation operation desired <;> simp [hknown, hdesired] at his' ⊢
    refine ⟨by simpa only [Engine.takesOut, hjobs] using hout, ?_⟩
    exact ((h.harmless i).deletes operation (by simpa only [Engine.deletes, hjobs] using hout)).of_log fun _ hevent => hevent
  · rw [hself]
    exact (h.oneCall i).persist hjobs Engine.allocate_call (.inl ⟨_, rfl, by simp⟩)
  · intro operation
    rw [hself]
    rfl
  · intro operation hd
    rw [hself] at hd
    cases hd
  · intro id' mutation version rest' hack
    rw [hself] at hack
    cases hack

/-- What the acknowledgement of a command leaves of the document: all but this command. -/
theorem updateAcknowledged_spec {mutation : CommandRef} {version : Option Nat} {id : Nat} {rest : List PersistenceJob} {q' : QueueState ι}
    (hq' : q.updateAcknowledged i mutation version s id rest = q') :
    (∀ j, j ≠ i → q'.engine j = q.engine j) ∧ q'.left = (q.store q'.document).left ∧ (∀ event ∈ q.log, event ∈ q'.log) ∧
      (q'.engine i).call = (q.engine i).call ∧
      (∃ reconciled conflicted, (q'.engine i).jobs = ⟨id, .acknowledged reconciled conflicted⟩ :: rest) ∧
      ∀ operation, hasKey ItemSyncCommand.operation operation q'.document =
        (hasKey ItemSyncCommand.operation operation q.document && decide (operation ≠ mutation.operation)) := by
  have hkeys : ∀ (e : Engine) (operation : String), hasKey ItemSyncCommand.operation operation
      ((((q.engine i).allocate q.document).2.filter fun r => r.operation ≠ mutation.operation).map e.command) =
        (hasKey ItemSyncCommand.operation operation q.document && decide (operation ≠ mutation.operation)) := by
    intro e operation
    rw [Engine.hasKey_map_command, hasKey_filter_ne, Engine.hasKey_allocate]
  subst hq'
  simp only [updateAcknowledged]
  split
  · refine ⟨fun j hj => ?_, rfl, fun event hevent => List.mem_append_right _ hevent, ?_, ?_, hkeys _⟩
    · simp [setEngine, applyEffect, Function.update_of_ne hj]
    · simp [applyEffect]
    · rw [setEngine_self]
      exact ⟨_, _, rfl⟩
  · refine ⟨fun j hj => setEngine_of_ne hj _, rfl, fun event hevent => hevent, ?_, ?_, hkeys _⟩
    · simp
    · rw [setEngine_self]
      exact ⟨_, _, rfl⟩

/-- The updater of `persistAcknowledgement`. -/
theorem Merging.updateAcknowledged (h : q.Merging) (hno : q.NoReuse (.persist i s)) {mutation : CommandRef}
    {version : Option Nat} {id : Nat} {rest : List PersistenceJob}
    (hjobs : (q.engine i).jobs = ⟨id, .acknowledge mutation version⟩ :: rest) :
    (q.updateAcknowledged i mutation version s id rest).Merging := by
  obtain ⟨hothers, hstored, hlog, hcall, ⟨reconciled, conflicted, hjobs'⟩, hkeys⟩ :=
    @updateAcknowledged_spec _ _ q i s mutation version id rest _ rfl
  refine h.updates hno hothers hstored hlog ?_ ?_ ?_ ?_ ?_ ?_
  · intro operation hhas
    rw [hkeys, Bool.and_eq_true] at hhas
    exact .inl hhas.1
  · intro operation hwas his
    rw [hkeys, hwas, Bool.true_and, decide_eq_false_iff_not, not_not] at his
    refine ⟨by simp [Engine.takesOut, hjobs, his], ?_⟩
    rw [his]
    exact ((h.harmless i).acknowledges id mutation version rest hjobs).of_log hlog
  · exact (h.oneCall i).persist hjobs hcall (.inl ⟨_, hjobs', by simp⟩)
  · intro operation
    simp [Engine.adds, hjobs']
  · intro operation hd
    simp [Engine.deletes, hjobs'] at hd
  · intro id' mutation' version' rest' hack
    rw [hjobs'] at hack
    cases hack

/-- The write of `clear()`. -/
theorem Merging.clears (h : q.Merging) (hno : q.NoReuse (.persist i s)) {id : Nat} {rest : List PersistenceJob}
    (hjobs : (q.engine i).jobs = ⟨id, .clear⟩ :: rest) (hq' : q.persist i s = some q') : q'.Merging := by
  have hqueue : (q.engine i).queue = none := (h.oneCall i).clearing id rest hjobs
  have hrest : rest = [] := ((h.oneCall i).only hjobs).1
  simp only [persist, hjobs, Option.some.injEq] at hq'
  subst hq'
  refine h.updates hno (fun j hj => setEngine_of_ne hj _) rfl (fun _ hevent => List.mem_cons_of_mem _ hevent) ?_ ?_ ?_ ?_ ?_ ?_
  · intro operation hhas
    cases hhas
  · intro operation hwas _
    refine ⟨by simp [Engine.takesOut, hjobs], _, List.mem_cons_self, ?_⟩
    obtain ⟨c, hc, hkey⟩ := hasKey_eq_true.mp hwas
    exact List.contains_iff_mem.mpr (List.mem_map.mpr ⟨c, hc, hkey⟩)
  · simp only [setEngine_self]
    exact (h.oneCall i).persist hjobs rfl (.inr rfl)
  · intro operation
    simp [Engine.adds, hrest, Engine.hasOperation, Engine.commands, hqueue]
  · intro operation hd
    simp only [setEngine_self, hrest, Engine.deletes] at hd
    simp only [Engine.deletes, hjobs]
    exact hd
  · intro id' mutation version rest' hack
    simp [hrest] at hack

/-- **A write that goes on keeps the invariant.** -/
theorem Merging.persist (h : q.Merging) (hno : q.NoReuse (.persist i s)) (hq' : q.persist i s = some q') : q'.Merging := by
  have hone := h.oneCall i
  cases hjobs : (q.engine i).jobs with
  | nil => simp [QueueState.persist, hjobs] at hq'
  | cons job rest =>
    obtain ⟨id, p⟩ := job
    cases p with
    | write =>
      simp only [QueueState.persist, hjobs, Option.some.injEq] at hq'
      subst hq'
      refine h.goesOn (hone.persist hjobs rfl (.inl ⟨_, rfl, by simp⟩)) (fun operation hop => ?_) (fun operation hd => ?_)
        (by simp)
      · have hadds := (h.harmless i).adds operation hop
        simp only [Engine.adds, hjobs] at hadds
        exact hadds
      · simp only [Engine.deletes, hjobs]
        exact hd
    | writing desired known =>
      simp only [QueueState.persist, hjobs, Option.some.injEq] at hq'
      subst hq'
      exact h.updateQueue hno hjobs
    | written desired reconciled elsewhere =>
      cases elsewhere with
      | cons r elsewhere =>
        simp only [QueueState.persist, hjobs, Option.some.injEq] at hq'
        subst hq'
        exact h.goesOn (hone.persist hjobs rfl (.inl ⟨_, rfl, by simp⟩)) (fun _ _ => rfl) (by simp [Engine.deletes]) (by simp)
      | nil =>
        simp only [QueueState.persist, hjobs, Option.some.injEq] at hq'
        subst hq'
        have hrest := (hone.only hjobs).1
        have hquiet := fun operation => @Engine.quiet_adopt (q.adopt i reconciled
          (reconciled.any fun r => !hasKey CommandRef.operation r.operation desired) rest) operation reconciled hrest
          Engine.commands_adoptReconciledQueue rfl
        refine h.goesOn (hone.persist hjobs Engine.adoptReconciledQueue_call (.inr rfl))
          (fun operation _ => (hquiet operation).1) (fun operation hd => ?_) (by simp [adopt, hrest])
        rw [(hquiet operation).2] at hd
        cases hd
    | acknowledge mutation version =>
      simp only [QueueState.persist, hjobs, Option.some.injEq] at hq'
      subst hq'
      exact h.updateAcknowledged hno hjobs
    | acknowledged reconciled conflicted =>
      simp only [QueueState.persist, hjobs, Option.some.injEq] at hq'
      subst hq'
      have hrest := (hone.only hjobs).1
      have hquiet := fun operation => @Engine.quiet_adopt ({ q.adopt i reconciled false rest with
        conflicted := Function.update (q.engine i).conflicted id
          (conflicted.bind fun operation => reconciled.find? fun r => r.operation = operation) }) operation reconciled hrest
        Engine.commands_adoptReconciledQueue rfl
      refine h.goesOn (hone.persist hjobs Engine.adoptReconciledQueue_call (.inr rfl))
        (fun operation _ => (hquiet operation).1) (fun operation hd => ?_) (by simp [adopt, hrest])
      rw [(hquiet operation).2] at hd
      cases hd
    | clear => exact h.clears hno hjobs hq'

/-! ## Runs -/

omit [DecidableEq ι] in
theorem NoReuse.oneCall {method : QueueCall} (hno : q.NoReuse (.call i method s)) : s.call = 0 := by
  cases method with
  | enqueue | stage => exact hno.1
  | _ => exact hno

theorem Merging.step {a : QueueLabel ι} (h : q.Merging) (hno : q.NoReuse a) (hq' : q.step a = some q') : q'.Merging := by
  cases a with
  | call i method s =>
    simp only [QueueState.step, hno.oneCall] at hq'
    split at hq'
    · next hnone =>
      cases hq'
      exact h.begin (Engine.begins_of_begin method) (Option.isNone_iff_eq_none.mp hnone) hno
    · cases hq'
  | resume i answer s =>
    simp only [QueueState.step] at hq'
    have hzero : s.call = 0 ∨ (q.engine i).call s.call = none := by
      by_cases hzero : s.call = 0
      · exact .inl hzero
      · exact .inr ((h.oneCall i).others s.call hzero)
    split at hq'
    · cases hq'
    · next w hw =>
      rcases hzero with hzero | hnone
      · split at hq'
        · next hfinished =>
          obtain ⟨stretch, hstretch, rfl⟩ := Option.map_eq_some_iff.mp hq'
          rw [hzero] at hw ⊢
          exact h.resume (Engine.resumes_of_resume hstretch) hw hfinished hno
        · cases hq'
      · rw [hnone] at hw
        cases hw
  | persist i s => exact h.persist hno hq'
  | crash i =>
    cases hq'
    exact h.goesOn ⟨fun _ => rfl, nofun, fun _ _ => rfl, nofun⟩ (fun _ _ => rfl) nofun nofun

omit [DecidableEq ι] in
theorem merging_init (document : List ItemSyncCommand) :
    QueueState.Merging ⟨document, fun _ : ι => newEngine, [], []⟩ where
  oneCall _ := ⟨fun _ => rfl, nofun, fun _ _ => rfl, nofun⟩
  harmless _ := ⟨fun _ _ => rfl, nofun, nofun⟩
  gone := nofun
  removed := nofun

/-- **The merge of the queues neither resurrects nor loses**: as long as no operation is queued
anew once it was removed, or removed while another engine is about to add it, no operation that
has left the document is in it, and all that have were acknowledged, cancelled or cleared. -/
theorem merge_neither_resurrects_nor_loses {document : List ItemSyncCommand}
    (h : (outboundQueue ι document).ReachableUnder NoReuse q) :
    (∀ operation ∈ q.left, hasKey ItemSyncCommand.operation operation q.document = false) ∧
      ∀ operation ∈ q.left, q.Removed operation := by
  have hinv : q.Merging := h.invariant Merging (fun _ hinit => hinit ▸ merging_init document)
    fun _ _ _ _ hmerging hno hstep => hmerging.step hno hstep
  exact ⟨hinv.gone, hinv.removed⟩

/-! ## Two engines -/

instance (q : QueueState Bool) (a : QueueLabel Bool) : Decidable (q.NoReuse a) :=
  match a with
  | .call _ (.enqueue _) _ | .call _ (.stage _ _) _ => inferInstanceAs (Decidable (_ ∧ _))
  | .call _ (.claimStaged _ _) _ | .call _ (.activate _ _) _ | .call _ (.cancel _ _) _ | .call _ .restore _
  | .call _ .drain _ | .call _ (.clear _) _ => inferInstanceAs (Decidable (_ = _))
  | .resume _ (.copy (.ok (some _))) _ => inferInstanceAs (Decidable (_ → _))
  | .persist _ _ => inferInstanceAs (Decidable (∀ _ ∈ _, _ → _))
  | .resume _ (.copy (.ok none)) _ | .resume _ (.copy (.error _)) _ | .resume _ .written _ | .resume _ (.projection _) _
  | .resume _ .stored _ | .resume _ (.client _) _ | .resume _ (.response _) _ | .resume _ (.acknowledged _) _
  | .resume _ (.current _) _ | .resume _ (.reconciled _) _ | .crash _ => inferInstanceAs (Decidable True)

instance (q : QueueState Bool) (a : QueueLabel Bool) : Decidable (q.OneAtATime a) :=
  match a with
  | .call _ _ _ => inferInstanceAs (Decidable (_ = _))
  | .resume .. | .persist .. | .crash _ => inferInstanceAs (Decidable True)

def sharedEdit (operation : String) : ItemSyncCommand :=
  { noCommand operation with
    type := .update
    entityId := "item"
    vaultId := "vault"
    encryptedPayload := some ⟨"data", "iv", "aes-256-gcm", 2, "user"⟩
    baseVersion := 1
    status := some .pending }

def copyOfEdit : ItemSyncCommand :=
  { sharedEdit "conflict-copy:edit" with type := .create, entityId := "copy", category := some .login }

def answers (i : Bool) (l : List QueueAnswer) : List (QueueLabel Bool) := l.map fun answer => .resume i answer ⟨0, 0, "", ""⟩

/-- The awaits of one write, and what follows it. -/
def writes (i : Bool) (n : Nat) : List (QueueLabel Bool) :=
  List.replicate n (.persist i ⟨0, 0, "", ""⟩) ++ answers i [.written]

/-- An engine restores a queue of one command. -/
def restoring (i : Bool) : List (QueueLabel Bool) :=
  .call i .restore ⟨0, 0, "", ""⟩ :: answers i [.written, .stored, .stored, .projection .applied]

/-- A command that is enqueued is stored and projected; `n` commands were acknowledged elsewhere. -/
def enqueueing (i : Bool) (n : Nat) : List (QueueLabel Bool) :=
  writes i (3 + n) ++ answers i [.projection .applied] ++ writes i 3

def drained (i : Bool) : List (QueueLabel Bool) :=
  answers i [.response (.ok (some 2, none)), .acknowledged (.ok ())] ++ writes i 2

/-- One engine has its edit acknowledged, and the other, which has it too, enqueues another one. -/
theorem merge_neither_resurrects_nor_loses_two_engines : ∃ q : QueueState Bool, q.left = ["edit"] ∧
    q.document.map ItemSyncCommand.operation = ["other"] ∧
      hasKey ItemSyncCommand.operation "edit" q.document = false ∧ q.Removed "edit" := by
  have hrun : ((outboundQueue Bool [sharedEdit "edit"]).runUnder NoReuse ⟨[sharedEdit "edit"], fun _ => newEngine, [], []⟩
      (restoring true ++ restoring false ++ [.call true .drain ⟨0, 0, "", ""⟩] ++ answers true [.client (.ok ())] ++
        drained true ++ [.call false (.enqueue (sharedEdit "other")) ⟨0, 0, "", ""⟩] ++ enqueueing false 1)).map
      (fun q => (q.left, q.document.map ItemSyncCommand.operation)) = some (["edit"], ["other"]) := by
    decide +kernel
  obtain ⟨q, hq, hfacts⟩ := Option.map_eq_some_iff.mp hrun
  obtain ⟨hleft, hdocument⟩ := Prod.mk.inj hfacts
  have hspec := merge_neither_resurrects_nor_loses (System.ReachableUnder.runUnder (.init rfl) hq)
  have hmem : "edit" ∈ q.left := by rw [hleft]; exact List.mem_cons_self
  exact ⟨q, hleft, hdocument, hspec.1 "edit" hmem, hspec.2 "edit" hmem⟩

/-- Both engines have the edit refused. The copy of the first one is acknowledged, and then the
second one enqueues the same copy again: its operation is back in the document. -/
theorem acknowledged_copy_reappears : ∃ q : QueueState Bool,
    (outboundQueue Bool [sharedEdit "edit"]).ReachableUnder OneAtATime q ∧ "conflict-copy:edit" ∈ q.left ∧
      hasKey ItemSyncCommand.operation "conflict-copy:edit" q.document = true := by
  have hrun : ((outboundQueue Bool [sharedEdit "edit"]).runUnder OneAtATime ⟨[sharedEdit "edit"], fun _ => newEngine, [], []⟩
      (restoring true ++ restoring false ++
        [.call true .drain ⟨0, 0, "", ""⟩] ++ answers true [.client (.ok ()), .response (.error .conflict),
          .current (.ok (some 2)), .reconciled (.ok ())] ++ writes true 3 ++
        answers true [.copy (.ok (some copyOfEdit))] ++ enqueueing true 0 ++
        drained true ++
        [.call false .drain ⟨0, 0, "", ""⟩] ++ answers false [.client (.ok ()), .response (.error .conflict),
          .current (.ok (some 2)), .reconciled (.ok ())] ++ writes false 3 ++
        answers false [.copy (.ok (some copyOfEdit))] ++
        List.replicate 3 (.persist false ⟨0, 0, "", ""⟩))).map
      (fun q => (q.left, hasKey ItemSyncCommand.operation "conflict-copy:edit" q.document)) =
        some (["conflict-copy:edit"], true) := by
    decide +kernel
  obtain ⟨q, hq, hfacts⟩ := Option.map_eq_some_iff.mp hrun
  obtain ⟨hleft, hdocument⟩ := Prod.mk.inj hfacts
  exact ⟨q, System.ReachableUnder.runUnder (.init rfl) hq, by rw [hleft]; exact List.mem_cons_self, hdocument⟩

end QueueState

end Bittery
