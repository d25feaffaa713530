/-
A call of `enqueue` or `stage` of `outbound-queue.ts` with nothing else going on, whose writes to
storage may fail.

`enqueue` lays the command on the queue, stores it, projects it and stores that. A projection
that fails is recorded: the command stays, as failed. A write that fails leaves the command in
the queue and nowhere else, and a further call finds it there.
-/
import Bittery.Client.QueueMerge

namespace Bittery

open Lib

namespace QueueState

variable {ι : Type} [DecidableEq ι]

/-! ## Writes -/

/-- The first write of an engine, from its beginning to its end: `writeQueue`. -/
def writeQueue (i : ι) (q : QueueState ι) : QueueState ι :=
  match (q.engine i).jobs with
  | [] => q
  | _ :: rest =>
    let desired := (q.engine i).commands
    let (e, current) := (q.engine i).allocate q.document
    let merged := e.mergeQueue desired current (q.engine i).persisted
    let q' := (q.store (merged.entries.map e.command)).setEngine i e
    q'.setEngine i (q'.adopt i merged.entries (merged.entries.any fun r => !hasKey CommandRef.operation r.operation desired) rest)

/-- Storage rejects: the write is over. -/
def failWrite (i : ι) (q : QueueState ι) : QueueState ι :=
  q.setEngine i { q.engine i with jobs := (q.engine i).jobs.tail }

/-! ## Calls -/

/-- A call is over with an error. -/
def rejects (i : ι) (call : Nat) (error : String) (q : QueueState ι) : QueueState ι × Option String :=
  (q.runStretch i call ⟨[], none⟩, some error)

/-- The `catch` of `enqueue`; `failure` is the error of its write. -/
def enqueueCaught (i : ι) (s : Surroundings) (operation : String) (command : CommandRef) (error : String) (failure : Option String)
    (q : QueueState ι) : QueueState ι × Option String :=
  let q' := q.runStretch i s.call ((q.engine i).enqueueApplied operation command .user (.failed error))
  match failure with
  | some failure => (q'.failWrite i).rejects i s.call failure
  | none => (q'.writeQueue i).rejects i s.call error

/-- `enqueue` from its projection on; the failures are those of the two further writes. -/
def enqueueProjected (i : ι) (s : Surroundings) (operation : String) (command : CommandRef) (outcome : Projection)
    (failure failure' : Option String) (q : QueueState ι) : QueueState ι × Option String :=
  match outcome with
  | .failed error => q.enqueueCaught i s operation command error failure
  | .applied | .conflicted =>
    let q' := q.runStretch i s.call ((q.engine i).enqueueApplied operation command .user outcome)
    match failure with
    | some failure => (q'.failWrite i).enqueueCaught i s operation command failure failure'
    | none =>
      let q'' := q'.writeQueue i
      (q''.runStretch i s.call ((q''.engine i).enqueueSettled s operation none .user), none)

/-- A call of `enqueue`, and the error that it rejects with; `failure` has the error of each of its
writes. -/
def enqueueAlone (i : ι) (s : Surroundings) (m : ItemSyncCommand) (failure : Nat → Option String) (outcome : Projection)
    (q : QueueState ι) : QueueState ι × Option String :=
  let q' := q.runStretch i s.call ((q.engine i).enqueue s m .user)
  match (q'.engine i).call s.call, failure 0 with
  | none, _ => (q', none)
  | some _, some failure => (q'.failWrite i).rejects i s.call failure
  | some _, none =>
    let q'' := q'.writeQueue i
    let q₃ := q''.runStretch i s.call ((q''.engine i).enqueueWritten s m.operation .user)
    match (q₃.engine i).call s.call with
    | some (.enqueueApply operation command _) => q₃.enqueueProjected i s operation command outcome (failure 1) (failure 2)
    | _ => (q₃, none)

/-- A call of `stage`. -/
def stageAlone (i : ι) (s : Surroundings) (m : ItemSyncCommand) (claim : Option (String × Nat)) (failure : Option String)
    (q : QueueState ι) : QueueState ι × Option String :=
  let q' := q.runStretch i s.call ((q.engine i).stage s m claim)
  match (q'.engine i).call s.call, failure with
  | none, _ => (q', none)
  | some _, some failure => (q'.failWrite i).rejects i s.call failure
  | some _, none => ((q'.writeQueue i).runStretch i s.call ⟨[.note (.resolved s.call m.operation)], none⟩, none)

end QueueState

/-! ## Objects that exist -/

/-- The objects that a write has in hand. -/
def Persistence.refs : Persistence → List CommandRef
  | .writing desired _ => desired
  | .written _ reconciled _ | .acknowledged reconciled _ => reconciled
  | .write | .acknowledge .. | .clear => []

/-- The arrays and the writes refer to objects that exist. -/
structure Engine.Allocated (e : Engine) : Prop where
  array : ∀ a, ∀ r ∈ e.array a, r.object < e.nextObject
  jobs : ∀ job ∈ e.jobs, ∀ r ∈ job.persistence.refs, r.object < e.nextObject

namespace Engine

variable {e : Engine} {x : QueueEffect} {xs : List QueueEffect} {r : CommandRef} {a : QueueRef} {l : List CommandRef}

theorem allocated_newEngine : newEngine.Allocated where
  array a r hr := by cases hr
  jobs job hjob := by cases hjob

theorem Allocated.commands (h : e.Allocated) (hr : r ∈ e.commands) : r.object < e.nextObject := by
  unfold Engine.commands at hr
  cases hqueue : e.queue with
  | none => simp [hqueue] at hr
  | some a =>
    rw [hqueue] at hr
    exact h.array a r hr

theorem Allocated.update (h : e.Allocated) (hl : ∀ r ∈ l, r.object < e.nextObject) (b : QueueRef) (hr : r ∈ Function.update e.array a l b) :
    r.object < e.nextObject := by
  by_cases hb : b = a
  · subst hb
    rw [Function.update_self] at hr
    exact hl r hr
  · rw [Function.update_of_ne hb] at hr
    exact h.array b r hr

theorem Allocated.setArray (h : e.Allocated) (hl : ∀ r ∈ l, r.object < e.nextObject) : (e.setArray a l).Allocated :=
  ⟨fun b _ hr => h.update hl b hr, h.jobs⟩

theorem Allocated.newArray (h : e.Allocated) (hl : ∀ r ∈ l, r.object < e.nextObject) : (e.newArray l).Allocated :=
  ⟨fun b _ hr => h.update hl b hr, h.jobs⟩

theorem Allocated.setQueue (h : e.Allocated) (hl : ∀ r ∈ l, r.object < e.nextObject) : (e.setQueue l).Allocated := by
  unfold Engine.setQueue
  split
  · exact h.setArray hl
  · exact h.newArray hl

theorem Allocated.new (h : e.Allocated) (c : ItemSyncCommand) : (e.new c).1.Allocated :=
  ⟨fun b r hr => Nat.lt_succ_of_lt (h.array b r hr), fun job hjob r hr => Nat.lt_succ_of_lt (h.jobs job hjob r hr)⟩

theorem Allocated.allocate (h : e.Allocated) (cs : List ItemSyncCommand) : (e.allocate cs).1.Allocated := by
  induction cs generalizing e with
  | nil => exact h
  | cons c cs ih => exact ih (h.new c)

theorem Allocated.schedule (h : e.Allocated) {p : Persistence} (hp : ∀ r ∈ p.refs, r.object < e.nextObject) :
    (e.schedule p).Allocated := by
  refine ⟨h.array, fun job hjob r hr => ?_⟩
  rcases List.mem_append.mp hjob with hjob | hjob
  · exact h.jobs job hjob r hr
  · obtain rfl := List.mem_singleton.mp hjob
    exact hp r hr

/-- **An effect** refers to objects that exist. -/
theorem Allocated.apply (h : e.Allocated) : (e.apply x).Allocated := by
  cases x with
  | push call c =>
    refine (h.new c).setQueue fun r hr => ?_
    rw [sortByTimestamp, List.mem_insertionSort, List.mem_append, List.mem_singleton] at hr
    rcases hr with hr | rfl
    · exact Nat.lt_succ_of_lt (h.commands hr)
    · exact Nat.lt_succ_self _
  | assign r a => exact ⟨h.array, h.jobs⟩
  | cancel queue operation => exact h.setArray fun r hr => h.array queue r (List.mem_of_mem_eraseIdx hr)
  | acknowledge queue index mutation serverVersion =>
    exact (h.setArray fun r hr => h.array queue r (List.mem_of_mem_eraseIdx hr)).schedule fun r hr => by cases hr
  | persist | clearStored => exact h.schedule fun r hr => by cases hr
  | deleteQueue | clearMaps | setDraining | requestDrain => exact ⟨h.array, h.jobs⟩
  | note event => exact h
  | load document =>
    rw [Engine.apply, Engine.load]
    split
    · exact h
    · have hloaded := (h.allocate (document.map ItemSyncCommand.normalizeMutation)).newArray
        (l := (e.allocate (document.map ItemSyncCommand.normalizeMutation)).1.sortByTimestamp
          (e.allocate (document.map ItemSyncCommand.normalizeMutation)).2) fun r hr => by
            rw [sortByTimestamp, List.mem_insertionSort] at hr
            exact object_lt_allocate hr
      exact ⟨hloaded.array, hloaded.jobs⟩

theorem Allocated.exec (h : e.Allocated) (xs : List QueueEffect) : (e.exec xs).Allocated := by
  induction xs generalizing e with
  | nil => exact h
  | cons x xs ih => exact ih h.apply

theorem Allocated.adopt (h : e.Allocated) {reconciled : List CommandRef} (hr : ∀ r ∈ reconciled, r.object < e.nextObject) :
    (e.adoptReconciledQueue reconciled).Allocated := by
  unfold adoptReconciledQueue
  split
  · exact h
  · exact ⟨(h.setArray fun r hr => by cases hr).array, h.jobs⟩
  · exact h.setQueue hr

end Engine

/-! ## Queues that are held -/

/-- A queue that a call holds is the engine's, or both are empty. -/
def Engine.Holds (e : Engine) (queue : QueueRef) : Prop := e.queue = some queue ∨ e.queue = none ∧ e.array queue = []

namespace Engine

variable {e : Engine} {queue : QueueRef} {l : List CommandRef}

theorem Holds.array (h : e.Holds queue) : e.array queue = e.commands := by
  rcases h with h | ⟨h, hnil⟩
  · simp [commands, h]
  · simp [commands, h, hnil]

theorem Holds.adopt (h : e.Holds queue) (hl : l ≠ [] → e.commands ≠ []) : (e.adoptReconciledQueue l).Holds queue := by
  rcases h with h | ⟨h, hnil⟩
  · cases l with
    | nil =>
      refine .inr ⟨?_, ?_⟩
      · simp [adoptReconciledQueue, h]
      · simp [adoptReconciledQueue, h, setArray]
    | cons r l => exact .inl (by simp [adoptReconciledQueue, setQueue, h, setArray])
  · cases l with
    | nil => exact .inr (by simp [adoptReconciledQueue, h, hnil])
    | cons r l => exact absurd (show e.commands = [] by simp [commands, h]) (hl (List.cons_ne_nil r l))

end Engine

namespace QueueState

/-- **The invariant**: no operation is in the document twice, and the engines refer to objects that exist. -/
structure Sound {ι : Type} (q : QueueState ι) : Prop where
  document : (q.document.map ItemSyncCommand.operation).Nodup
  engine : ∀ i, (q.engine i).Allocated

variable {ι : Type} [DecidableEq ι] {q q' : QueueState ι} {i : ι} {s : Surroundings} {a : QueueLabel ι} {call : Nat}
  {stretch : Stretch} {e : Engine}

/-- One engine changes, and perhaps the document. -/
theorem Sound.setEngine (h : q.Sound) (hdocument : (q'.document.map ItemSyncCommand.operation).Nodup)
    (hothers : ∀ j, j ≠ i → q'.engine j = q.engine j) (hself : (q'.engine i).Allocated) : q'.Sound :=
  ⟨hdocument, fun j => if hj : j = i then hj ▸ hself else hothers j hj ▸ h.engine j⟩

theorem Sound.runStretch (h : q.Sound) (call : Nat) (stretch : Stretch) : (q.runStretch i call stretch).Sound := by
  refine h.setEngine ?_ (fun j hj => runStretch_engine_of_ne hj call stretch) ?_
  · exact (@effects_document _ _ q i stretch.effects).1 ▸ h.document
  · rw [runStretch_engine_self]
    exact ⟨((h.engine i).exec stretch.effects).array, ((h.engine i).exec stretch.effects).jobs⟩

omit [DecidableEq ι] in
/-- What a write makes of the entries that it finds. -/
theorem Sound.merge (h : q.Sound) {desired : List CommandRef} {known : List ItemSyncCommand}
    (hdesired : ∀ r ∈ desired, r.object < (q.engine i).nextObject) :
    (((((q.engine i).allocate q.document).1.mergeQueue desired ((q.engine i).allocate q.document).2 known).entries.map
        CommandRef.operation).Nodup) ∧
      ∀ r ∈ (((q.engine i).allocate q.document).1.mergeQueue desired ((q.engine i).allocate q.document).2 known).entries,
        r.object < ((q.engine i).allocate q.document).1.nextObject := by
  constructor
  · have hperm : (((q.engine i).allocate q.document).1.mergeQueue desired ((q.engine i).allocate q.document).2 known).entries.Perm _ :=
      List.perm_insertionSort _ _
    refine (hperm.map _).nodup_iff.mpr (nodup_merge ?_)
    rw [Engine.operations_allocate]
    exact h.document
  · intro r hr
    rw [Engine.mergeQueue, Engine.sortByTimestamp, List.mem_insertionSort] at hr
    rcases mem_merge hr with hr | ⟨hr, -⟩
    · exact Engine.object_lt_allocate hr
    · exact Nat.lt_of_lt_of_le (hdesired r hr) Engine.nextObject_le_allocate

/-- The rest of the writes, after the first one. -/
theorem allocated_setJobs {id : Nat} {p : Persistence} {rest : List PersistenceJob} (h : e.Allocated) (hrest : ∀ job ∈ rest, job ∈ e.jobs)
    (hp : ∀ r ∈ p.refs, r.object < e.nextObject) : ({ e with jobs := ⟨id, p⟩ :: rest } : Engine).Allocated := by
  refine ⟨h.array, fun job hjob => ?_⟩
  rcases List.mem_cons.mp hjob with rfl | hjob
  · exact hp
  · exact h.jobs job (hrest job hjob)

omit [DecidableEq ι] in
/-- What `adopt` has in hand comes from a write. -/
theorem allocated_adopt {reconciled : List CommandRef} {drainRequested : Bool} {rest : List PersistenceJob} (h : (q.engine i).Allocated)
    (hrest : ∀ job ∈ rest, job ∈ (q.engine i).jobs) (hr : ∀ r ∈ reconciled, r.object < (q.engine i).nextObject) :
    (q.adopt i reconciled drainRequested rest).Allocated := by
  have hadopt := h.adopt hr
  have hnext : ((q.engine i).adoptReconciledQueue reconciled).nextObject = (q.engine i).nextObject :=
    Engine.adoptReconciledQueue_nextObject
  exact ⟨hadopt.array, fun job hjob r hr => hnext.symm ▸ h.jobs job (hrest job hjob) r hr⟩

/-- A write that goes on. -/
theorem Sound.persist (h : q.Sound) (hq : q.persist i s = some q') : q'.Sound := by
  have hengine := h.engine i
  have hallocate := hengine.allocate q.document
  cases hjobs : (q.engine i).jobs with
  | nil => simp [QueueState.persist, hjobs] at hq
  | cons job rest =>
    obtain ⟨id, p⟩ := job
    have hrest : ∀ job ∈ rest, job ∈ (q.engine i).jobs := fun job hjob => hjobs ▸ List.mem_cons_of_mem _ hjob
    have hhead : ∀ r ∈ p.refs, r.object < (q.engine i).nextObject :=
      hengine.jobs ⟨id, p⟩ (hjobs ▸ List.mem_cons_self)
    have hrest' : ∀ job ∈ rest, job ∈ ((q.engine i).allocate q.document).1.jobs := by
      rw [Engine.allocate_frame.2.2.2.1]
      exact hrest
    cases p with
    | write =>
      simp only [QueueState.persist, hjobs, Option.some.injEq] at hq
      subst hq
      refine h.setEngine h.document (fun j hj => setEngine_of_ne hj _) ?_
      rw [setEngine_self]
      exact @allocated_setJobs _ id _ rest hengine hrest fun r hr => hengine.commands hr
    | writing desired known =>
      simp only [QueueState.persist, hjobs, Option.some.injEq] at hq
      subst hq
      obtain ⟨hnodup, hentries⟩ := @Sound.merge _ q i h desired known hhead
      refine h.setEngine ?_ (fun j hj => setEngine_of_ne hj _) ?_
      · simp only [updateQueue, setEngine_document, store_document]
        rw [Engine.operations_commands]
        exact hnodup
      · simp only [updateQueue, setEngine_self]
        exact @allocated_setJobs _ id _ rest hallocate hrest' hentries
    | written desired reconciled elsewhere =>
      cases elsewhere with
      | cons r elsewhere =>
        simp only [QueueState.persist, hjobs, Option.some.injEq] at hq
        subst hq
        refine h.setEngine h.document (fun j hj => setEngine_of_ne hj _) ?_
        rw [setEngine_self]
        exact @allocated_setJobs _ id (.written desired reconciled elsewhere) rest hengine hrest hhead
      | nil =>
        simp only [QueueState.persist, hjobs, Option.some.injEq] at hq
        subst hq
        refine h.setEngine h.document (fun j hj => setEngine_of_ne hj _) ?_
        rw [setEngine_self]
        exact allocated_adopt hengine hrest hhead
    | acknowledge mutation version =>
      simp only [QueueState.persist, hjobs, Option.some.injEq] at hq
      subst hq
      have hfilter : ∀ r ∈ ((q.engine i).allocate q.document).2.filter fun r => r.operation ≠ mutation.operation,
          r.object < ((q.engine i).allocate q.document).1.nextObject :=
        fun r hr => Engine.object_lt_allocate (List.mem_filter.mp hr).1
      have hnodup : ((((q.engine i).allocate q.document).2.filter fun r => r.operation ≠ mutation.operation).map
          CommandRef.operation).Nodup := by
        refine List.Nodup.sublist (List.filter_sublist.map _) ?_
        rw [Engine.operations_allocate]
        exact h.document
      obtain ⟨hothers, -, -, -, ⟨reconciled, conflicted, hjobs'⟩, -⟩ :=
        @updateAcknowledged_spec _ _ q i s mutation version id rest _ rfl
      refine h.setEngine ?_ hothers ?_
      · simp only [updateAcknowledged]
        split <;> simp only [setEngine_document, store_document] <;> rw [Engine.operations_commands] <;> exact hnodup
      · simp only [updateAcknowledged]
        split
        · next version chained _ =>
          rw [setEngine_self, applyEffect_engine_self, setEngine_self]
          exact @allocated_setJobs _ id (.acknowledged _ _) rest
            (hallocate.apply (x := .assign chained (.chained version s.copyId s.suffix))) hrest' hfilter
        · rw [setEngine_self]
          exact @allocated_setJobs _ id (.acknowledged _ _) rest hallocate hrest' hfilter
    | acknowledged reconciled conflicted =>
      simp only [QueueState.persist, hjobs, Option.some.injEq] at hq
      subst hq
      refine h.setEngine h.document (fun j hj => setEngine_of_ne hj _) ?_
      rw [setEngine_self]
      have hadopt := @allocated_adopt _ q i reconciled false rest hengine hrest hhead
      exact ⟨hadopt.array, hadopt.jobs⟩
    | clear =>
      simp only [QueueState.persist, hjobs, Option.some.injEq] at hq
      subst hq
      refine h.setEngine List.nodup_nil (fun j hj => setEngine_of_ne hj _) ?_
      simp only [setEngine_self]
      exact ⟨hengine.array, fun job hjob => hengine.jobs job (hrest job hjob)⟩

theorem Sound.step (h : q.Sound) (hq : q.step a = some q') : q'.Sound := by
  cases a with
  | call i method s =>
    simp only [QueueState.step] at hq
    split at hq
    · obtain rfl := Option.some.inj hq
      exact h.runStretch s.call _
    · cases hq
  | resume i answer s =>
    simp only [QueueState.step] at hq
    split at hq
    · cases hq
    · split at hq
      · obtain ⟨stretch, -, rfl⟩ := Option.map_eq_some_iff.mp hq
        exact h.runStretch s.call stretch
      · cases hq
  | persist i s => exact h.persist hq
  | crash i =>
    obtain rfl := Option.some.inj hq
    refine h.setEngine h.document (fun j hj => setEngine_of_ne hj _) ?_
    rw [setEngine_self]
    exact Engine.allocated_newEngine

theorem sound {document : List ItemSyncCommand} (hdocument : (document.map ItemSyncCommand.operation).Nodup)
    (h : (outboundQueue ι document).Reachable q) : q.Sound := by
  refine h.invariant Sound (fun q hinit => ?_) fun _ _ _ _ hsound hstep => hsound.step hstep
  obtain rfl := hinit
  exact ⟨hdocument, fun _ => Engine.allocated_newEngine⟩

/-! ## A whole write -/

/-- What is adopted does not depend on the writes. -/
theorem adopt_setJobs {jobs rest : List PersistenceJob} {reconciled : List CommandRef} {drainRequested : Bool} :
    (q.setEngine i { q.engine i with jobs := jobs }).adopt i reconciled drainRequested rest =
      q.adopt i reconciled drainRequested rest := by
  simp only [adopt, setEngine_self]
  generalize q.engine i = e
  obtain ⟨command, hop, nextObject, array, nextArray, queue, -⟩ := e
  cases queue <;> cases reconciled <;> rfl

omit [DecidableEq ι] in
/-- Nor do the copies of the entries. -/
theorem allocate_setJobs {jobs : List PersistenceJob} {cs : List ItemSyncCommand} :
    ({ e with jobs := jobs } : Engine).allocate cs = ({ (e.allocate cs).1 with jobs := jobs }, (e.allocate cs).2) := by
  induction cs generalizing e with
  | nil => rfl
  | cons c cs ih =>
    have hrest := @ih (e.new c).1
    have hnew : ({ e with jobs := jobs } : Engine).new c = ({ (e.new c).1 with jobs := jobs }, (e.new c).2) := rfl
    rw [Engine.allocate, hnew, hrest]
    rfl

/-- **A write from its beginning to its end** is a run of `persist` steps. -/
theorem run_writeQueue {document : List ItemSyncCommand} {id : Nat} {rest : List PersistenceJob}
    (hjobs : (q.engine i).jobs = ⟨id, .write⟩ :: rest) (s : Surroundings) :
    ∃ n, (outboundQueue ι document).run q (List.replicate n (.persist i s)) = some (q.writeQueue i) := by
  -- The commands that were acknowledged elsewhere are discarded one after another.
  have hdiscards : ∀ (q : QueueState ι) (desired reconciled elsewhere : List CommandRef),
      (q.engine i).jobs = ⟨id, .written desired reconciled elsewhere⟩ :: rest →
      (outboundQueue ι document).run q (List.replicate (elsewhere.length + 1) (.persist i s)) =
        some (q.setEngine i (q.adopt i reconciled (reconciled.any fun r => !hasKey CommandRef.operation r.operation desired) rest)) := by
    intro q desired reconciled elsewhere
    induction elsewhere generalizing q with
    | nil =>
      intro hjobs
      simp [System.run, outboundQueue, QueueState.step, QueueState.persist, hjobs]
    | cons r elsewhere ih =>
      intro hjobs
      rw [List.length_cons, List.replicate_succ, System.run]
      have hstep : (outboundQueue ι document).step q (.persist i s) = some (q.setEngine i
          { q.engine i with jobs := ⟨id, .written desired reconciled elsewhere⟩ :: rest }) := by
        simp [outboundQueue, QueueState.step, QueueState.persist, hjobs]
      rw [hstep, Option.bind_some, ih _ (by rw [setEngine_self]), adopt_setJobs, setEngine_setEngine]
  obtain ⟨harray, hqueue, hpersisted, -, hcall⟩ := @Engine.allocate_frame (q.engine i) q.document
  refine ⟨((((q.engine i).allocate q.document).1.mergeQueue (q.engine i).commands ((q.engine i).allocate q.document).2
    (q.engine i).persisted).gone.length + 1) + 2, ?_⟩
  rw [List.replicate_succ, System.run]
  have hbegins : (outboundQueue ι document).step q (.persist i s) = some (q.setEngine i
      { q.engine i with jobs := ⟨id, .writing (q.engine i).commands (q.engine i).persisted⟩ :: rest }) := by
    simp [outboundQueue, QueueState.step, QueueState.persist, hjobs]
  rw [hbegins, Option.bind_some, List.replicate_succ, System.run]
  have hupdates : (outboundQueue ι document).step (q.setEngine i
      { q.engine i with jobs := ⟨id, .writing (q.engine i).commands (q.engine i).persisted⟩ :: rest }) (.persist i s) =
      some (((q.setEngine i { q.engine i with jobs := ⟨id, .writing (q.engine i).commands (q.engine i).persisted⟩ :: rest }).updateQueue i
        (q.engine i).commands (q.engine i).persisted id rest)) := by
    simp [outboundQueue, QueueState.step, QueueState.persist]
  rw [hupdates, Option.bind_some, updateQueue, setEngine_self, setEngine_document, allocate_setJobs]
  unfold writeQueue
  rw [hjobs]
  generalize (q.engine i).allocate q.document = alloc
  obtain ⟨e, current⟩ := alloc
  simp only []
  have hsame : ∀ (d : List ItemSyncCommand) (jobs jobs' : List PersistenceJob),
      ((q.setEngine i { q.engine i with jobs := jobs }).store d).setEngine i { e with jobs := jobs' } =
        ((q.store d).setEngine i e).setEngine i { ((q.store d).setEngine i e).engine i with jobs := jobs' } := fun d jobs jobs' => by
    simp [setEngine, store]
  rw [hsame]
  refine (hdiscards _ (q.engine i).commands _ _ (by rw [setEngine_self]; rfl)).trans ?_
  rw [adopt_setJobs, setEngine_setEngine]
  rfl

theorem Sound.run (h : q.Sound) {document : List ItemSyncCommand} {as : List (QueueLabel ι)}
    (hrun : (outboundQueue ι document).run q as = some q') : q'.Sound := by
  induction as generalizing q with
  | nil => exact Option.some.inj hrun ▸ h
  | cons a as ih =>
    obtain ⟨m, hm, hrest⟩ := Option.bind_eq_some_iff.mp hrun
    exact ih (h.step hm) hrest

variable {id : Nat} {rest : List PersistenceJob}

theorem Sound.writeQueue (h : q.Sound) (hjobs : (q.engine i).jobs = ⟨id, .write⟩ :: rest) : (q.writeQueue i).Sound := by
  obtain ⟨n, hrun⟩ := @run_writeQueue _ _ q i [] id rest hjobs ⟨0, 0, "", ""⟩
  exact h.run hrun

/-- **After a write** the queue, what is remembered of it and the document are the same. -/
theorem writeQueue_spec (hjobs : (q.engine i).jobs = ⟨id, .write⟩ :: rest) :
    ((q.writeQueue i).engine i).commands.map ((q.writeQueue i).engine i).command = (q.writeQueue i).document ∧
      ((q.writeQueue i).engine i).persisted = (q.writeQueue i).document ∧
      ((q.writeQueue i).engine i).jobs = rest ∧ ((q.writeQueue i).engine i).call = (q.engine i).call := by
  unfold QueueState.writeQueue
  rw [hjobs]
  obtain ⟨-, -, -, -, hcall⟩ := @Engine.allocate_frame (q.engine i) q.document
  generalize (q.engine i).allocate q.document = alloc at hcall
  obtain ⟨e, current⟩ := alloc
  have hcommand : ∀ reconciled, (e.adoptReconciledQueue reconciled).command = e.command :=
    fun reconciled => Engine.adoptReconciledQueue_command
  simp only [setEngine_self, setEngine_document, store_document, adopt]
  refine ⟨?_, ?_, trivial, Engine.adoptReconciledQueue_call.trans hcall⟩
  · refine (List.map_congr_left fun r _ => congrFun (hcommand _) r).trans ?_
    exact congrArg (List.map e.command) Engine.commands_adoptReconciledQueue
  · simp only [Engine.rememberPersistedCommands, hcommand]

/-- **A write of what the document has**: when nobody else has changed the document, the queue stays. -/
theorem commands_writeQueue (h : q.Sound) (hjobs : (q.engine i).jobs = ⟨id, .write⟩ :: rest)
    (hpersisted : (q.engine i).persisted = q.document) (hnodup : ((q.engine i).commands.map CommandRef.operation).Nodup) :
    (∀ r, r ∈ ((q.writeQueue i).engine i).commands ↔ r ∈ (q.engine i).commands) ∧
      (∀ r ∈ (q.engine i).commands, ((q.writeQueue i).engine i).command r = (q.engine i).command r) ∧
      ((q.writeQueue i).engine i).drainRequested = (q.engine i).drainRequested ∧
      ((q.writeQueue i).engine i).draining = (q.engine i).draining ∧ (q.writeQueue i).log = q.log ∧
      ∀ queue, (q.engine i).Holds queue → ((q.writeQueue i).engine i).Holds queue := by
  obtain ⟨harray, hqueue, -⟩ := @Engine.allocate_frame (q.engine i) q.document
  have hrequests := @Engine.allocate_draining (q.engine i) q.document
  have hold : ∀ r ∈ (q.engine i).commands, ((q.engine i).allocate q.document).1.command r = (q.engine i).command r :=
    fun r hr => Engine.command_allocate_of_lt ((h.engine i).commands hr)
  have hkeys := fun operation => @Engine.hasKey_mergeQueue ((q.engine i).allocate q.document).1 operation (q.engine i).commands
    ((q.engine i).allocate q.document).2 q.document
  -- The entries are the engine's own, for the others are unchanged.
  have hown : ∀ a ∈ (((q.engine i).allocate q.document).1.mergeQueue (q.engine i).commands
      ((q.engine i).allocate q.document).2 q.document).entries, ∀ b ∈ (q.engine i).commands, a.operation = b.operation → a = b := by
    intro a ha b hb hop
    rw [Engine.mergeQueue, Engine.sortByTimestamp, List.mem_insertionSort] at ha
    refine eq_of_mem_merge hnodup hb (fun hknown => Engine.hasKey_allocate.trans hknown) (fun x hx hxb => ?_) ha hop
    cases hfind : q.document.find? fun c => c.operation = x.operation with
    | none => rfl
    | some k =>
      rw [Option.any_some, decide_eq_false_iff_not, not_not]
      exact Engine.eq_of_find? h.document hfind (Engine.mem_document_allocate hx) (Engine.operation_command _ x)
  have hentries : ∀ r, r ∈ (((q.engine i).allocate q.document).1.mergeQueue (q.engine i).commands
      ((q.engine i).allocate q.document).2 q.document).entries ↔ r ∈ (q.engine i).commands := by
    intro r
    constructor
    · intro hr
      have hhas := (hkeys r.operation).symm.trans (hasKey_eq_true.mpr ⟨r, hr, rfl⟩)
      rw [Engine.hasKey_allocate] at hhas
      obtain ⟨b, hb, hop⟩ : ∃ b ∈ (q.engine i).commands, b.operation = r.operation := by
        rw [← hasKey_eq_true]
        cases hknown : hasKey ItemSyncCommand.operation r.operation q.document <;> simpa [hknown] using hhas
      obtain rfl := hown r hr b hb hop.symm
      exact hb
    · intro hr
      have hhas : hasKey CommandRef.operation r.operation (((q.engine i).allocate q.document).1.mergeQueue (q.engine i).commands
          ((q.engine i).allocate q.document).2 q.document).entries = true := by
        have hdesired : hasKey CommandRef.operation r.operation (q.engine i).commands = true := hasKey_eq_true.mpr ⟨r, hr, rfl⟩
        rw [hkeys, Engine.hasKey_allocate, hdesired]
        cases hasKey ItemSyncCommand.operation r.operation q.document <;> rfl
      obtain ⟨a, ha, hop⟩ := hasKey_eq_true.mp hhas
      obtain rfl := hown a ha r hr hop
      exact ha
  have hrequested : ((((q.engine i).allocate q.document).1.mergeQueue (q.engine i).commands
      ((q.engine i).allocate q.document).2 q.document).entries.any fun r =>
        !hasKey CommandRef.operation r.operation (q.engine i).commands) = false := by
    rw [List.any_eq_false]
    intro r hr
    have hhas : hasKey CommandRef.operation r.operation (q.engine i).commands = true :=
      hasKey_eq_true.mpr ⟨r, (hentries r).mp hr, rfl⟩
    simp [hhas]
  unfold QueueState.writeQueue
  rw [hjobs, hpersisted]
  generalize halloc : (q.engine i).allocate q.document = alloc at *
  obtain ⟨e, current⟩ := alloc
  simp only [setEngine_self, adopt, hrequested, Bool.or_false]
  have hsame : e.commands = (q.engine i).commands := by
    unfold Engine.commands
    rw [show e.array = (q.engine i).array from harray, show e.queue = (q.engine i).queue from hqueue]
  refine ⟨fun r => ?_, fun r hr => ?_, hrequests.2,
    Engine.adoptReconciledQueue_draining.trans hrequests.1, rfl, fun queue hholds => ?_⟩
  · rw [← hentries r]
    exact iff_of_eq (congrArg (r ∈ ·) Engine.commands_adoptReconciledQueue)
  · exact (congrFun Engine.adoptReconciledQueue_command r).trans (hold r hr)
  · refine Engine.Holds.adopt (e := e) ?_ fun hne hnil => ?_
    · rw [Engine.Holds, show e.array = (q.engine i).array from harray, show e.queue = (q.engine i).queue from hqueue]
      exact hholds
    · obtain ⟨r, hr⟩ := List.exists_mem_of_ne_nil _ hne
      have hmem := (hentries r).mp hr
      rw [← hsame, hnil] at hmem
      cases hmem

/-- So the document is the queue then. -/
theorem mem_writeQueue (h : q.Sound) (hjobs : (q.engine i).jobs = ⟨id, .write⟩ :: rest)
    (hpersisted : (q.engine i).persisted = q.document) (hnodup : ((q.engine i).commands.map CommandRef.operation).Nodup)
    {c : ItemSyncCommand} :
    c ∈ (q.writeQueue i).document ↔ ∃ r ∈ (q.engine i).commands, (q.engine i).command r = c := by
  obtain ⟨hcommands, hvalues, -⟩ := commands_writeQueue h hjobs hpersisted hnodup
  rw [← (writeQueue_spec hjobs).1, List.mem_map]
  constructor
  · rintro ⟨r, hr, rfl⟩
    have hr' := (hcommands r).mp hr
    exact ⟨r, hr', (hvalues r hr').symm⟩
  · rintro ⟨r, hr, rfl⟩
    exact ⟨r, (hcommands r).mpr hr, hvalues r hr⟩

/-! ## What a call leaves -/

/-- A stretch that ends with a write of the queue. -/
theorem runStretch_persistThen {xs : List QueueEffect} {await : Nat → EngineAwait} (hjobs : (q.engine i).jobs = [])
    (hxs : ((q.engine i).exec xs).jobs = (q.engine i).jobs) :
    ∃ id, ((q.runStretch i call ((q.engine i).andThen xs (Engine.persistThen await))).engine i).jobs = [⟨id, .write⟩] ∧
      ((q.runStretch i call ((q.engine i).andThen xs (Engine.persistThen await))).engine i).call call = some (await id) ∧
      ((q.runStretch i call ((q.engine i).andThen xs (Engine.persistThen await))).engine i).commands =
        ((q.engine i).exec xs).commands ∧
      ((q.runStretch i call ((q.engine i).andThen xs (Engine.persistThen await))).engine i).command =
        ((q.engine i).exec xs).command ∧
      ((q.runStretch i call ((q.engine i).andThen xs (Engine.persistThen await))).engine i).persisted =
        ((q.engine i).exec xs).persisted := by
  rw [runStretch_engine_self]
  simp only [Engine.andThen, Engine.persistThen, Engine.exec_append, Engine.exec_cons, Engine.exec_nil]
  refine ⟨((q.engine i).exec xs).nextJob, ?_, Function.update_self .., rfl, rfl, rfl⟩
  simp [Engine.apply, Engine.schedule, hxs, hjobs]

theorem runStretch_document (call : Nat) (stretch : Stretch) : (q.runStretch i call stretch).document = q.document :=
  effects_document.1

/-- The engine's queue, what it remembers of it and the document are the same. -/
structure Synced {ι : Type} (q : QueueState ι) (i : ι) : Prop where
  commands : (q.engine i).commands.map (q.engine i).command = q.document
  persisted : (q.engine i).persisted = q.document

theorem synced_writeQueue (hjobs : (q.engine i).jobs = ⟨id, .write⟩ :: rest) : (q.writeQueue i).Synced i :=
  ⟨(writeQueue_spec hjobs).1, (writeQueue_spec hjobs).2.1⟩

omit [DecidableEq ι] in
theorem Synced.nodup (h : q.Synced i) (hsound : q.Sound) : ((q.engine i).commands.map CommandRef.operation).Nodup := by
  rw [← Engine.operations_commands (q.engine i), h.commands]
  exact hsound.document

variable {m : ItemSyncCommand} {operation error : String} {command : CommandRef}

/-- `enqueue` lays a command on the queue that is not there, and stores it. -/
theorem runStretch_enqueue (hjobs : (q.engine i).jobs = []) (hnew : (q.engine i).hasOperation m.operation = false) :
    ∃ id, ((q.runStretch i s.call ((q.engine i).enqueue s m .user)).engine i).jobs = [⟨id, .write⟩] ∧
      ((q.runStretch i s.call ((q.engine i).enqueue s m .user)).engine i).call s.call = some (.enqueueWrite m.operation id .user) ∧
      ((q.runStretch i s.call ((q.engine i).enqueue s m .user)).engine i).commands =
        ((q.engine i).push (Engine.enqueueing m)).commands ∧
      ((q.runStretch i s.call ((q.engine i).enqueue s m .user)).engine i).command =
        ((q.engine i).push (Engine.enqueueing m)).command ∧
      ((q.runStretch i s.call ((q.engine i).enqueue s m .user)).engine i).persisted = (q.engine i).persisted := by
  have hno : ¬ (q.engine i).commands.any (fun r => r.operation = m.operation) = true := by
    rw [Bool.not_eq_true]
    exact hnew
  have hpushes : (q.engine i).enqueue s m .user = (q.engine i).andThen [.push s.call (Engine.enqueueing m)]
      (Engine.persistThen fun job => .enqueueWrite m.operation job .user) := if_neg hno
  obtain ⟨id, hid, hcall, hcommands, hcommand, hpersisted⟩ :=
    @runStretch_persistThen _ _ q i s.call [.push s.call (Engine.enqueueing m)] (fun job => .enqueueWrite m.operation job .user)
      hjobs (Engine.push_jobs _)
  rw [hpushes]
  exact ⟨id, hid, hcall, hcommands, hcommand, hpersisted.trans (Engine.push_persisted _)⟩

/-- The queue after `enqueue` has stored a command that was not there: the others are as they were. -/
theorem mem_enqueueWritten (h : q.Sound) (hsynced : q.Synced i) (hjobs : (q.engine i).jobs = [])
    (hnew : (q.engine i).hasOperation m.operation = false) {c : ItemSyncCommand} (hc : c.operation ≠ m.operation) :
    c ∈ ((q.runStretch i s.call ((q.engine i).enqueue s m .user)).writeQueue i).document ↔ c ∈ q.document := by
  obtain ⟨id, hjobs', -, hcommands, hcommand, hpersisted⟩ := @runStretch_enqueue _ _ q i s m hjobs hnew
  generalize hq' : q.runStretch i s.call ((q.engine i).enqueue s m .user) = q' at *
  have hdocument : q'.document = q.document := hq' ▸ runStretch_document s.call _
  have hsound : q'.Sound := hq' ▸ h.runStretch s.call _
  have hmem : ∀ r, r ∈ (q'.engine i).commands ↔ r ∈ (q.engine i).commands ∨ r = ((q.engine i).new (Engine.enqueueing m)).2 := fun r => by
    rw [hcommands]
    simp only [Engine.push, Engine.commands_setQueue, Engine.sortByTimestamp,
      List.mem_insertionSort, List.mem_append, List.mem_singleton]
  have hvalue : ∀ r ∈ (q.engine i).commands, (q'.engine i).command r = (q.engine i).command r := fun r hr => by
    rw [hcommand]
    simp only [Engine.push, Engine.setQueue_command]
    exact Engine.command_new_of_ne fun heq => Nat.lt_irrefl _ (heq ▸ (h.engine i).commands hr)
  have hnodup : ((q'.engine i).commands.map CommandRef.operation).Nodup := by
    rw [hcommands]
    simp only [Engine.push, Engine.commands_setQueue, Engine.sortByTimestamp]
    refine ((List.perm_insertionSort _ _).map _).nodup_iff.mpr ?_
    rw [List.map_append, List.map_singleton, List.nodup_append]
    refine ⟨hsynced.nodup h, by simp, fun operation hold operation' hnew' heq => ?_⟩
    obtain ⟨r, hr, rfl⟩ := List.mem_map.mp hold
    obtain rfl := List.mem_singleton.mp hnew'
    exact hasKey_eq_false.mp hnew r hr heq
  have hpersisted' : (q'.engine i).persisted = q'.document := by
    rw [hpersisted, hdocument, ← hsynced.persisted]
  rw [mem_writeQueue hsound hjobs' hpersisted' hnodup, ← hsynced.commands, List.mem_map]
  constructor
  · rintro ⟨r, hr, rfl⟩
    rcases (hmem r).mp hr with hr | rfl
    · exact ⟨r, hr, (hvalue r hr).symm⟩
    · exact absurd ((q'.engine i).operation_command _) hc
  · rintro ⟨r, hr, rfl⟩
    exact ⟨r, (hmem r).mpr (.inl hr), hvalue r hr⟩

/-- **The `catch` of `enqueue`**, whose write goes through: the command is stored as failed, and the
others are as they were. -/
theorem enqueueCaught_spec (h : q.Sound) (hsynced : q.Synced i) (hjobs : (q.engine i).jobs = [])
    (hcommand : command ∈ (q.engine i).commands) :
    (q.enqueueCaught i s operation command error none).2 = some error ∧
      ((q.enqueueCaught i s operation command error none).1.Synced i) ∧
      ((q.enqueueCaught i s operation command error none).1.engine i).call s.call = none ∧
      ∀ c, c ∈ (q.enqueueCaught i s operation command error none).1.document ↔
        c = { (q.engine i).command command with status := some .failed, lastError := some error } ∨
          c.operation ≠ command.operation ∧ c ∈ q.document := by
  have heffects : (q.engine i).enqueueApplied operation command .user (.failed error) =
      (q.engine i).andThen [.assign command (.failed error)]
        (Engine.persistThen fun job => .enqueueSettle operation job (some error) .user) := rfl
  obtain ⟨id, hjobs', -, hcommands, hvalues, hpersisted⟩ :=
    @runStretch_persistThen _ _ q i s.call [.assign command (.failed error)]
      (fun job => .enqueueSettle operation job (some error) .user) hjobs rfl
  rw [← heffects] at hjobs' hcommands hvalues hpersisted
  simp only [enqueueCaught, rejects]
  generalize hq' : q.runStretch i s.call ((q.engine i).enqueueApplied operation command .user (.failed error)) = q' at *
  have hdocument : q'.document = q.document := hq' ▸ runStretch_document s.call _
  have hsound : q'.Sound := hq' ▸ h.runStretch s.call _
  have hrefs : (q'.engine i).commands = (q.engine i).commands := hcommands
  have hnodup : ((q'.engine i).commands.map CommandRef.operation).Nodup := hrefs ▸ hsynced.nodup h
  have hpersisted' : (q'.engine i).persisted = q'.document := by
    rw [hpersisted, hdocument, ← hsynced.persisted]
    rfl
  have hfinal := synced_writeQueue hjobs'
  refine ⟨trivial, ?_, ?_, fun c => ?_⟩
  · refine ⟨?_, ?_⟩
    · rw [runStretch_engine_self, runStretch_document]
      exact hfinal.commands
    · rw [runStretch_engine_self, runStretch_document]
      exact hfinal.persisted
  · rw [runStretch_engine_self]
    exact Function.update_self ..
  · rw [runStretch_document, mem_writeQueue hsound hjobs' hpersisted' hnodup, hrefs, ← hsynced.commands, List.mem_map]
    have hassigned : (q'.engine i).command command =
        { (q.engine i).command command with status := some .failed, lastError := some error } := by
      rw [hvalues]
      exact Engine.command_assign_self
    have hothers : ∀ r, r ≠ command → (q'.engine i).command r = (q.engine i).command r := fun r hr => by
      rw [hvalues]
      exact Engine.command_assign_of_ne hr
    have hunique : ∀ r ∈ (q.engine i).commands, r.operation = command.operation → r = command := fun r hr hop =>
      List.inj_on_of_nodup_map (hsynced.nodup h) hr hcommand hop
    constructor
    · rintro ⟨r, hr, rfl⟩
      by_cases hrc : r = command
      · exact .inl (hrc ▸ hassigned)
      · refine .inr ⟨fun hop => hrc (hunique r hr ((Engine.operation_command _ r).symm.trans hop)), r, hr, (hothers r hrc).symm⟩
    · rintro (rfl | ⟨hop, r, hr, rfl⟩)
      · exact ⟨command, hcommand, hassigned⟩
      · exact ⟨r, hr, hothers r fun heq => hop (heq ▸ (q.engine i).operation_command r)⟩

/-! ### Lone calls are runs -/

section Runs

variable {document : List ItemSyncCommand}

/-- A call goes on; nothing is being written. -/
theorem run_resume {w : EngineAwait} {answer : QueueAnswer} (hcall : (q.engine i).call s.call = some w) (hjobs : (q.engine i).jobs = [])
    (hresume : (q.engine i).resume s q.document w answer = some stretch) :
    (outboundQueue ι document).run q [.resume i answer s] = some (q.runStretch i s.call stretch) := by
  have hfinished : (w.job.all (q.engine i).finished) = true := by
    cases w.job with
    | none => rfl
    | some job => simp [Engine.finished, hjobs]
  simp [System.run, outboundQueue, QueueState.step, hcall, hfinished, hresume]

/-- A stretch that ends with a write, the write, and what comes after it. -/
theorem run_stored {xs : List QueueEffect} {await : Nat → EngineAwait} {as : List (QueueLabel ι)} {q₀ : QueueState ι}
    (hrun : (outboundQueue ι document).run q₀ as = some (q.runStretch i s.call ((q.engine i).andThen xs (Engine.persistThen await))))
    (hjobs : (q.engine i).jobs = []) (hxs : ((q.engine i).exec xs).jobs = (q.engine i).jobs)
    (hresume : ∀ id, (((q.runStretch i s.call ((q.engine i).andThen xs (Engine.persistThen await))).writeQueue i).engine i).resume s
      ((q.runStretch i s.call ((q.engine i).andThen xs (Engine.persistThen await))).writeQueue i).document (await id) .written =
        some stretch) :
    ∃ as', (outboundQueue ι document).run q₀ as' =
      some (((q.runStretch i s.call ((q.engine i).andThen xs (Engine.persistThen await))).writeQueue i).runStretch i s.call stretch) := by
  obtain ⟨id, hjobs', hcall, -⟩ := @runStretch_persistThen _ _ q i s.call xs await hjobs hxs
  generalize q.runStretch i s.call ((q.engine i).andThen xs (Engine.persistThen await)) = q' at *
  obtain ⟨-, -, hnone, hkept⟩ := writeQueue_spec hjobs'
  obtain ⟨n, hwrite⟩ := @run_writeQueue _ _ q' i document id [] hjobs' s
  exact ⟨_, System.run_trans (System.run_trans hrun hwrite) (run_resume (hkept ▸ hcall) hnone (hresume id))⟩

/-- The call waits for its projection, which comes. -/
theorem run_enqueueProjected {as : List (QueueLabel ι)} {q₀ : QueueState ι} {outcome : Projection}
    (hrun : (outboundQueue ι document).run q₀ as = some q) (hjobs : (q.engine i).jobs = [])
    (hcall : (q.engine i).call s.call = some (.enqueueApply operation command .user)) :
    ∃ as', (outboundQueue ι document).run q₀ as' = some (q.enqueueProjected i s operation command outcome none none).1 := by
  have hproject := System.run_trans hrun (@run_resume _ _ q i s _ document _ (.projection outcome) hcall hjobs rfl)
  cases outcome with
  | failed error => exact run_stored hproject hjobs rfl fun _ => rfl
  | applied => exact run_stored hproject hjobs rfl fun _ => rfl
  | conflicted => exact run_stored hproject hjobs rfl fun _ => rfl

omit [DecidableEq ι] in
/-- What `enqueue` does once its command is stored leaves the engine as it is. -/
theorem exec_enqueueWritten : e.exec (e.enqueueWritten s operation .user).effects = e ∧
    ∀ operation' command caller, (e.enqueueWritten s operation .user).await = some (.enqueueApply operation' command caller) →
      caller = .user ∧ operation' = operation ∧ command ∈ e.commands ∧ command.operation = operation := by
  unfold Engine.enqueueWritten
  split
  · exact ⟨rfl, fun _ _ _ h => by cases h⟩
  · next command hfind =>
    split
    · exact ⟨rfl, fun _ _ _ h => by cases h⟩
    · refine ⟨rfl, fun _ _ _ h => ?_⟩
      cases h
      exact ⟨rfl, rfl, List.mem_of_find?_eq_some hfind, by simpa using List.find?_some hfind⟩

/-- The call goes on from there. -/
theorem applies_enqueueWritten {caller : EnqueueCaller} {operation' : String}
    (h : ((q.runStretch i s.call ((q.engine i).enqueueWritten s operation .user)).engine i).call s.call =
      some (.enqueueApply operation' command caller)) :
    caller = .user ∧ operation' = operation ∧ command ∈ (q.engine i).commands ∧ command.operation = operation := by
  rw [runStretch_engine_self] at h
  simp only [Function.update_self] at h
  exact exec_enqueueWritten.2 operation' command caller h

theorem runStretch_enqueueWritten :
    ((q.runStretch i s.call ((q.engine i).enqueueWritten s operation .user)).engine i).commands = (q.engine i).commands ∧
      ((q.runStretch i s.call ((q.engine i).enqueueWritten s operation .user)).engine i).jobs = (q.engine i).jobs ∧
      ((q.runStretch i s.call ((q.engine i).enqueueWritten s operation .user)).engine i).persisted = (q.engine i).persisted := by
  rw [runStretch_engine_self, (@exec_enqueueWritten s (q.engine i) operation).1]
  exact ⟨rfl, rfl, rfl⟩

/-- **A call of `enqueue` whose writes go through is a run of the engine.** -/
theorem run_enqueueAlone (hjobs : (q.engine i).jobs = []) (hidle : (q.engine i).call s.call = none) (outcome : Projection) :
    ∃ as, (outboundQueue ι document).run q as = some (q.enqueueAlone i s m (fun _ => none) outcome).1 := by
  have hbegins : (outboundQueue ι document).run q [.call i (.enqueue m) s] =
      some (q.runStretch i s.call ((q.engine i).enqueue s m .user)) := by
    simp [System.run, outboundQueue, QueueState.step, hidle, Engine.begin]
  unfold enqueueAlone
  cases hhas : (q.engine i).hasOperation m.operation with
  | true =>
    have hfound : (q.engine i).enqueue s m .user = ⟨[.note (.found m.operation)], none⟩ := if_pos hhas
    have hover : ((q.runStretch i s.call ((q.engine i).enqueue s m .user)).engine i).call s.call = none := by
      rw [hfound, runStretch_engine_self]
      exact Function.update_self ..
    simp only [hover]
    exact ⟨_, hbegins⟩
  | false =>
    obtain ⟨id, hjobs', hcall, -⟩ := @runStretch_enqueue _ _ q i s m hjobs hhas
    simp only [hcall]
    generalize q.runStretch i s.call ((q.engine i).enqueue s m .user) = q' at *
    obtain ⟨-, -, hnone, hkept⟩ := writeQueue_spec hjobs'
    obtain ⟨n, hwrite⟩ := @run_writeQueue _ _ q' i document id [] hjobs' s
    have hwritten := System.run_trans (System.run_trans hbegins hwrite)
      (@run_resume _ _ (q'.writeQueue i) i s _ document _ .written (hkept ▸ hcall) hnone rfl)
    split
    · next operation command caller happly =>
      obtain ⟨rfl, -, -, -⟩ := applies_enqueueWritten happly
      exact run_enqueueProjected hwritten (runStretch_enqueueWritten.2.1.trans hnone) happly
    · exact ⟨_, hwritten⟩

end Runs

/-- A further call finds the operation. -/
theorem enqueueAlone_of_hasOperation (hhas : (q.engine i).hasOperation m.operation = true)
    (hidle : (q.engine i).call s.call = none) (failure : Nat → Option String) (outcome : Projection) :
    (q.enqueueAlone i s m failure outcome).2 = none ∧ (q.enqueueAlone i s m failure outcome).1.document = q.document ∧
      (q.enqueueAlone i s m failure outcome).1.engine i = q.engine i := by
  have hfound : (q.engine i).enqueue s m .user = ⟨[.note (.found m.operation)], none⟩ := if_pos hhas
  have hcall : ((q.runStretch i s.call ⟨[.note (.found m.operation)], none⟩).engine i) = q.engine i := by
    rw [runStretch_engine_self]
    simp only [Engine.exec_cons, Engine.exec_nil, Engine.apply]
    rw [← hidle, Function.update_eq_self]
  unfold enqueueAlone
  simp only [hfound, hcall, hidle]
  exact ⟨trivial, runStretch_document s.call _, trivial⟩

/-! ### Calls that reject -/

/-- An `enqueue` that rejects, though no write has failed, does so in its `catch`. -/
theorem enqueueAlone_of_rejects {error' : String} (hjobs : (q.engine i).jobs = [])
    (hrejects : (q.enqueueAlone i s m (fun _ => none) (.failed error)).2 = some error') :
    (q.engine i).hasOperation m.operation = false ∧ ∃ command,
      command ∈ (((q.runStretch i s.call ((q.engine i).enqueue s m .user)).writeQueue i).engine i).commands ∧
      command.operation = m.operation ∧
      q.enqueueAlone i s m (fun _ => none) (.failed error) =
        (((q.runStretch i s.call ((q.engine i).enqueue s m .user)).writeQueue i).runStretch i s.call
          ⟨[], some (.enqueueApply m.operation command .user)⟩).enqueueCaught i s m.operation command error none := by
  cases hhas : (q.engine i).hasOperation m.operation with
  | true =>
    have hfound : (q.engine i).enqueue s m .user = ⟨[.note (.found m.operation)], none⟩ := if_pos hhas
    have hcall : ((q.runStretch i s.call ⟨[.note (.found m.operation)], none⟩).engine i).call s.call = none := by
      rw [runStretch_engine_self]
      exact Function.update_self ..
    simp only [enqueueAlone, hfound, hcall] at hrejects
    cases hrejects
  | false =>
    obtain ⟨id, -, hcall, -⟩ := @runStretch_enqueue _ _ q i s m hjobs hhas
    refine ⟨rfl, ?_⟩
    simp only [enqueueAlone, hcall] at hrejects ⊢
    generalize (q.runStretch i s.call ((q.engine i).enqueue s m .user)).writeQueue i = q' at hrejects ⊢
    have hended : ∀ stretch : Stretch, stretch.await = none → ((q'.runStretch i s.call stretch).engine i).call s.call = none :=
      fun stretch hnone => by
        rw [runStretch_engine_self, hnone]
        exact Function.update_self ..
    have happlies : ∀ w, ((q'.runStretch i s.call ⟨[], some w⟩).engine i).call s.call = some w := fun w => by
      rw [runStretch_engine_self]
      exact Function.update_self ..
    unfold Engine.enqueueWritten at hrejects ⊢
    cases hfind : (q'.engine i).commands.find? fun r => r.operation = m.operation with
    | none =>
      simp only [hfind, hended ((q'.engine i).enqueued s .user (.resolved s.call m.operation)) rfl] at hrejects
      cases hrejects
    | some command =>
      simp only [hfind] at hrejects ⊢
      by_cases hterminal : ((q'.engine i).command command).status = some .conflicted ∨
          ((q'.engine i).command command).status = some .failed
      · simp only [if_pos hterminal, hended ((q'.engine i).enqueued s .user (.resolved s.call m.operation)) rfl] at hrejects
        cases hrejects
      · refine ⟨command, List.mem_of_find?_eq_some hfind, by simpa using List.find?_some hfind, ?_⟩
        simp only [if_neg hterminal, happlies]
        rfl

/-- **An `enqueue` that rejects because its projection has failed** has kept the command, as failed: in
the queue, in what is remembered of it and in the document. The other commands are as they were, if
those three were the same before, and a further call with the operation leaves all as it is. -/
theorem enqueue_keeps_failed {document : List ItemSyncCommand} {error' : String}
    (hdocument : (document.map ItemSyncCommand.operation).Nodup) (h : (outboundQueue ι document).Reachable q)
    (hjobs : (q.engine i).jobs = []) (hrejects : (q.enqueueAlone i s m (fun _ => none) (.failed error)).2 = some error') :
    let q' := (q.enqueueAlone i s m (fun _ => none) (.failed error)).1
    error' = error ∧ (q'.Synced i) ∧
      (∃ c ∈ q'.document, c.operation = m.operation ∧ c.status = some .failed ∧ c.lastError = some error) ∧
      (q.Synced i → ∀ c, c.operation ≠ m.operation → (c ∈ q'.document ↔ c ∈ q.document)) ∧
      ∀ failure outcome, (q'.enqueueAlone i s m failure outcome).2 = none ∧
        (q'.enqueueAlone i s m failure outcome).1.document = q'.document ∧
        (q'.enqueueAlone i s m failure outcome).1.engine i = q'.engine i := by
  have hsound := sound hdocument h
  obtain ⟨hnew, command, hcommand, hop, heq⟩ := enqueueAlone_of_rejects hjobs hrejects
  rw [heq] at hrejects
  simp only [heq]
  have hothers := fun hsynced c => @mem_enqueueWritten _ _ q i s m hsound hsynced hjobs hnew c
  obtain ⟨id, hjobs', -⟩ := @runStretch_enqueue _ _ q i s m hjobs hnew
  have hsound' := (hsound.runStretch s.call ((q.engine i).enqueue s m .user) (i := i)).writeQueue hjobs'
  have hsynced' := synced_writeQueue hjobs'
  have hjobs'' := (writeQueue_spec hjobs').2.2.1
  generalize (q.runStretch i s.call ((q.engine i).enqueue s m .user)).writeQueue i = q₁ at *
  -- The call waits for its projection; nothing else changes.
  have hsound₂ : (q₁.runStretch i s.call ⟨[], some (.enqueueApply m.operation command .user)⟩).Sound := hsound'.runStretch s.call _
  have hengine := @runStretch_engine_self _ _ q₁ i s.call ⟨[], some (.enqueueApply m.operation command .user)⟩
  have hsame := @runStretch_document _ _ q₁ i s.call ⟨[], some (.enqueueApply m.operation command .user)⟩
  generalize q₁.runStretch i s.call ⟨[], some (.enqueueApply m.operation command .user)⟩ = q₂ at *
  have hsynced₂ : q₂.Synced i := by
    refine ⟨?_, ?_⟩
    · rw [hengine, hsame]
      exact hsynced'.commands
    · rw [hengine, hsame]
      exact hsynced'.persisted
  obtain ⟨herror, hfinal, hidle, hmem⟩ := @enqueueCaught_spec _ _ q₂ i s m.operation error command hsound₂ hsynced₂
    (by rw [hengine]; exact hjobs'') (by rw [hengine]; exact hcommand)
  generalize q₂.enqueueCaught i s m.operation command error none = result at *
  have hfailed : ∃ c ∈ result.1.document, c.operation = m.operation ∧ c.status = some .failed ∧ c.lastError = some error :=
    ⟨_, (hmem _).mpr (.inl rfl), (Engine.operation_command _ command).trans hop, rfl, rfl⟩
  refine ⟨Option.some.inj (hrejects.symm.trans herror), hfinal, hfailed, fun hsynced c hc => ?_, fun failure outcome => ?_⟩
  · rw [hmem, ← hothers hsynced c hc, hsame]
    constructor
    · rintro (rfl | ⟨-, hold⟩)
      · exact absurd ((Engine.operation_command _ command).trans hop) hc
      · exact hold
    · exact fun hold => .inr ⟨hop ▸ hc, hold⟩
  · refine enqueueAlone_of_hasOperation ?_ hidle failure outcome
    obtain ⟨c, hc, hcop, -⟩ := hfailed
    rw [← hfinal.commands] at hc
    obtain ⟨r, hr, rfl⟩ := List.mem_map.mp hc
    exact hasKey_eq_true.mpr ⟨r, hr, (Engine.operation_command _ r).symm.trans hcop⟩

/-! ### One engine -/

/-- An engine that has just been made, and no document. -/
def emptyQueue : QueueState Bool := ⟨[], fun _ => newEngine, [], []⟩

theorem run_enqueueAlone_empty : ∃ as, (outboundQueue Bool []).run emptyQueue as =
    some (emptyQueue.enqueueAlone true ⟨0, 0, "", ""⟩ (sharedEdit "edit") (fun _ => none) .applied).1 := run_enqueueAlone rfl rfl _

/-- A command is enqueued, and its projection fails: the call rejects, and the command is there. -/
theorem failed_projection_not_undone :
    (emptyQueue.enqueueAlone true ⟨0, 0, "", ""⟩ (sharedEdit "edit") (fun _ => none) (.failed "locked")).2 = some "locked" ∧
      (emptyQueue.enqueueAlone true ⟨0, 0, "", ""⟩ (sharedEdit "edit") (fun _ => none) (.failed "locked")).1.document ≠
        emptyQueue.document ∧
      ((emptyQueue.enqueueAlone true ⟨0, 0, "", ""⟩ (sharedEdit "edit") (fun _ => none) (.failed "locked")).1.engine true).hasOperation
        "edit" = true := by
  decide +kernel

theorem enqueue_keeps_failed_empty :
    let q' := (emptyQueue.enqueueAlone true ⟨0, 0, "", ""⟩ (sharedEdit "edit") (fun _ => none) (.failed "locked")).1
    (q'.Synced true) ∧ ∃ c ∈ q'.document, c.operation = "edit" ∧ c.status = some .failed ∧ c.lastError = some "locked" := by
  have hrejects : (emptyQueue.enqueueAlone true ⟨0, 0, "", ""⟩ (sharedEdit "edit") (fun _ => none) (.failed "locked")).2 =
      some "locked" := by
    decide +kernel
  have hspec := @enqueue_keeps_failed Bool _ emptyQueue true ⟨0, 0, "", ""⟩ (sharedEdit "edit") "locked" [] "locked" List.nodup_nil (.init rfl)
    rfl hrejects
  exact ⟨hspec.2.1, hspec.2.2.1⟩

end QueueState

end Bittery
