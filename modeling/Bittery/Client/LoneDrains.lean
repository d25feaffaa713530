/-
Drains of `outbound-queue.ts` with nothing else going on: one engine, whose queue and document
agree at first, and whatever the server and the reconciler answer.

A drain ends, for every request costs its command one of the attempts that it has left, or the
command itself; a conflict copy, the only command that comes in, has its attempts from the edit
that it is the copy of, and is none itself. So no command is sent more often than it may be tried.
-/
import Bittery.Client.LoneCalls
import Mathlib.Algebra.Order.BigOperators.Group.List
import Mathlib.Algebra.Order.Group.Nat

namespace Bittery

open Lib

/-! ## Drains -/

namespace QueueState

variable {ι : Type} [DecidableEq ι]

/-- The write of an engine goes through, if there is one. -/
def settle (i : ι) (s : Surroundings) (q : QueueState ι) : QueueState ι :=
  match (q.engine i).jobs with
  | [] => q
  | ⟨_, .acknowledge ..⟩ :: _ => ((q.persist i s).bind fun q' => q'.persist i s).getD q
  | _ :: _ => q.writeQueue i

end QueueState

/-- The type of a command that a conflict copy is made of. -/
def ItemSyncCommand.isEdit (c : ItemSyncCommand) : Bool := c.type = .update || c.type = .move || c.type = .crossAccountMove

inductive DrainLabel
  | drain (now : Nat)
  /-- What the drain waits for comes. -/
  | answer (answer : QueueAnswer) (now : Nat) (suffix copyId : String)

def DrainLabel.isAnswer : DrainLabel → Bool
  | .drain _ => false
  | .answer .. => true

namespace QueueState

variable {ι : Type} [DecidableEq ι]

/-- A drain begins or goes on, up to its next await; what it writes goes through. -/
def drainStep (i : ι) (q : QueueState ι) : DrainLabel → Option (QueueState ι)
  | .drain now =>
    if ((q.engine i).call 0).isNone then
      some ((q.runStretch i 0 ((q.engine i).begin ⟨0, now, "", ""⟩ .drain)).settle i ⟨0, now, "", ""⟩)
    else none
  | .answer answer now suffix copyId =>
    ((q.engine i).call 0).bind fun await =>
      ((q.engine i).resume ⟨0, now, suffix, copyId⟩ q.document await answer).map fun stretch =>
        (q.runStretch i 0 stretch).settle i ⟨0, now, suffix, copyId⟩

/-- What `preserveItemConflict` makes copies of, and what they are. -/
def copies (i : ι) (q : QueueState ι) : DrainLabel → Bool
  | .answer (.copy (.ok (some copy))) _ _ _ =>
    match (q.engine i).call 0 with
    | some (.preserveConflict mutation _) => ((q.engine i).command mutation).isEdit && copy.type = .create
    | _ => true
  | _ => true

end QueueState

/-- Drains of one engine, one after another, from any queue that the document agrees with. -/
def loneDrains {ι : Type} [DecidableEq ι] (i : ι) : System (QueueState ι) DrainLabel where
  init q := q.Sound ∧ q.Synced i ∧ (q.engine i).jobs = [] ∧ (q.engine i).call 0 = none ∧ (q.engine i).draining = false ∧ q.log = []
  step q a := q.drainStep i a

/-! ## What a command may still cost -/

namespace ItemSyncCommand

variable (c : ItemSyncCommand)

/-- How often the command can still be sent. -/
def attemptsLeft : Nat := if c.isActiveMutation then max (MAX_RETRY_COUNT - c.retryCount) 1 else 0

/-- How often it and its copy can. -/
def cost : Nat := if c.isActiveMutation && c.isEdit then c.attemptsLeft + (MAX_RETRY_COUNT + 1) else c.attemptsLeft

end ItemSyncCommand

/-- Whether the event begins the life of a command. -/
def QueueEvent.enqueues (operation : String) : QueueEvent → Bool
  | .pushed _ c => c.operation = operation
  | _ => false

/-- The requests that were sent for a command since it was enqueued; the latest event comes first. -/
def requests (operation : String) (log : List QueueEvent) : Nat :=
  (log.takeWhile fun event => !event.enqueues operation).countP fun event => event = .sent operation

namespace ItemSyncCommand

variable {c : ItemSyncCommand} {a : Assignment}

theorem attemptsLeft_le : c.attemptsLeft ≤ MAX_RETRY_COUNT := by
  unfold attemptsLeft
  split
  · exact Nat.max_le.mpr ⟨Nat.sub_le _ _, by decide⟩
  · exact Nat.zero_le _

theorem attemptsLeft_pos (h : c.isActiveMutation = true) : 0 < c.attemptsLeft := by
  rw [attemptsLeft, if_pos h]
  exact Nat.lt_of_lt_of_le Nat.one_pos (Nat.le_max_right _ _)

theorem attemptsLeft_of_ended (h : c.isActiveMutation = false) : c.attemptsLeft = 0 ∧ c.cost = 0 := by
  simp [cost, attemptsLeft, h]

theorem isEdit_assign (c : ItemSyncCommand) (a : Assignment) : (c.assign a).isEdit = c.isEdit := by
  have htype : (c.assign a).type = c.type := by
    cases a with
    | retry now suffix error => exact (sameRequest_markRetrying c now suffix error).type
    | reschedule now error => exact (sameRequest_scheduleRetry { c with retryCount := c.retryCount + 1 } now error).type
    | chained version copyId suffix =>
      simp only [assign, rebaseChainedCommand]
      split
      · rfl
      · split <;> rfl
    | rebase version copyId suffix =>
      simp only [assign, rebaseMetadataMutation]
      split
      · rfl
      · split
        · rfl
        · cases version <;> rfl
    | _ => rfl
  unfold isEdit
  rw [htype]

end ItemSyncCommand

/-- The assignments that an attempt ends with. -/
def Assignment.endsAttempt : Assignment → Bool
  | .retry .. | .reschedule .. | .encryptedConflict .. | .failed .. | .rebase .. => true
  | _ => false

namespace ItemSyncCommand

variable {c d : ItemSyncCommand} {a : Assignment}

theorem cost_le_of (hedit : d.isEdit = c.isEdit) (h : d.isActiveMutation = true → c.isActiveMutation = true ∧ c.retryCount ≤ d.retryCount) :
    d.attemptsLeft ≤ c.attemptsLeft ∧ d.cost ≤ c.cost := by
  cases hd : d.isActiveMutation with
  | false =>
    obtain ⟨hleft, hcost⟩ := attemptsLeft_of_ended hd
    rw [hleft, hcost]
    exact ⟨Nat.zero_le _, Nat.zero_le _⟩
  | true =>
    obtain ⟨hc, hcount⟩ := h hd
    have hleft : d.attemptsLeft ≤ c.attemptsLeft := by
      simp only [attemptsLeft, hd, hc, if_true]
      omega
    refine ⟨hleft, ?_⟩
    simp only [cost, hd, hc, hedit]
    split <;> omega

/-- A further attempt is one less. -/
theorem cost_lt_of (hc : c.isActiveMutation = true) (hedit : d.isEdit = c.isEdit)
    (h : d.isActiveMutation = true → c.retryCount < d.retryCount ∧ d.retryCount < MAX_RETRY_COUNT) :
    d.attemptsLeft + 1 ≤ c.attemptsLeft ∧ d.cost + 1 ≤ c.cost := by
  have hpos := attemptsLeft_pos hc
  cases hd : d.isActiveMutation with
  | false =>
    obtain ⟨hleft, hcost⟩ := attemptsLeft_of_ended hd
    rw [hleft, hcost]
    refine ⟨hpos, ?_⟩
    simp only [cost]
    split <;> omega
  | true =>
    obtain ⟨hcount, hmax⟩ := h hd
    have hleft : d.attemptsLeft + 1 ≤ c.attemptsLeft := by
      simp only [attemptsLeft, hd, hc, if_true]
      omega
    refine ⟨hleft, ?_⟩
    simp only [cost, hd, hc, hedit]
    split <;> omega

theorem isActiveMutation_scheduleRetry (c : ItemSyncCommand) (now : Nat) (error : String) :
    (c.scheduleRetry now error).retryCount = c.retryCount ∧
      ((c.scheduleRetry now error).isActiveMutation = true → c.retryCount < MAX_RETRY_COUNT) := by
  unfold scheduleRetry
  split
  · exact ⟨rfl, fun h => by cases h⟩
  · next hcount => exact ⟨rfl, fun _ => Nat.lt_of_not_le hcount⟩

/-- **An attempt that ends** costs the command one, and an edit that it has put into conflict its copy too. -/
theorem cost_assign_endsAttempt (hc : c.isActiveMutation = true) (ha : a.endsAttempt = true) :
    ((c.assign a).attemptsLeft + 1 ≤ c.attemptsLeft ∧ (c.assign a).cost + 1 ≤ c.cost) ∧
      ((c.assign a).status = some .conflicted → c.isEdit = true → (c.assign a).cost + (MAX_RETRY_COUNT + 2) ≤ c.cost) := by
  refine ⟨cost_lt_of hc (isEdit_assign c a) ?_, fun hstatus hedit => ?_⟩
  · intro hactive
    cases a with
    | retry now suffix error =>
      have hrenew : (({ c with retryCount := c.retryCount + 1 } : ItemSyncCommand).renewAttempt suffix).retryCount = c.retryCount + 1 := by
        unfold renewAttempt
        split <;> rfl
      obtain ⟨hcount, hmax⟩ :=
        isActiveMutation_scheduleRetry (({ c with retryCount := c.retryCount + 1 } : ItemSyncCommand).renewAttempt suffix) now error
      have := hmax hactive
      simp only [assign, markRetrying]
      omega
    | reschedule now error =>
      obtain ⟨hcount, hmax⟩ := isActiveMutation_scheduleRetry { c with retryCount := c.retryCount + 1 } now error
      have hmax' : c.retryCount + 1 < MAX_RETRY_COUNT := hmax hactive
      have hcount' : (({ c with retryCount := c.retryCount + 1 } : ItemSyncCommand).scheduleRetry now error).retryCount = c.retryCount + 1 :=
        hcount
      simp only [assign]
      omega
    | rebase version copyId suffix =>
      simp only [assign, rebaseMetadataMutation] at hactive ⊢
      split at hactive
      · cases hactive
      · next hsealed =>
        split at hactive
        · cases hactive
        · next hcount =>
          cases version with
          | none => cases hactive
          | some version =>
            simp only [hsealed, hcount, if_false, Bool.false_eq_true]
            omega
    | encryptedConflict | failed => cases hactive
    | chained | preserveFailed | applied | activated | claimed | projectedConflict | copyId | entityId => cases ha
  · have hended : (c.assign a).isActiveMutation = false := by simp [isActiveMutation, hstatus]
    have hpos := attemptsLeft_pos hc
    rw [(attemptsLeft_of_ended hended).2]
    simp only [cost, hc, hedit, Bool.and_self, if_true]
    omega

/-- The other assignments of a drain cost nothing, and save what they save. -/
theorem cost_assign_le (hc : a = .applied ∨ (∃ version copyId suffix, a = .chained version copyId suffix) → c.isActiveMutation = true)
    (ha : a.endsAttempt = false) (hactivated : a ≠ .activated) : (c.assign a).attemptsLeft ≤ c.attemptsLeft ∧ (c.assign a).cost ≤ c.cost := by
  refine cost_le_of (isEdit_assign c a) fun hactive => ?_
  cases a with
  | applied => exact ⟨hc (.inl rfl), Nat.le_refl _⟩
  | chained version copyId suffix =>
    refine ⟨hc (.inr ⟨version, copyId, suffix, rfl⟩), ?_⟩
    simp only [assign, rebaseChainedCommand]
    split
    · exact Nat.le_refl _
    · split <;> exact Nat.le_refl _
  | projectedConflict => cases hactive
  | activated => exact absurd rfl hactivated
  | preserveFailed | claimed | copyId | entityId => exact ⟨hactive, Nat.le_refl _⟩
  | retry | reschedule | encryptedConflict | failed | rebase => cases ha

end ItemSyncCommand

/-! ## What a step does to the queue -/

/-- Whether the event is neither a request of an operation nor the beginning of its life. -/
def QueueEvent.isQuiet : QueueEvent → Bool
  | .sent _ | .pushed .. => false
  | _ => true

theorem requests_append {operation : String} {events log : List QueueEvent} (h : ∀ event ∈ events, event.isQuiet = true) :
    requests operation (events ++ log) = requests operation log := by
  induction events with
  | nil => rfl
  | cons event events ih =>
    have hevent := h event List.mem_cons_self
    rw [List.cons_append, requests, List.takeWhile_cons_of_pos, List.countP_cons_of_neg]
    · exact ih fun event hmem => h event (List.mem_cons_of_mem _ hmem)
    · cases event <;> simp_all [QueueEvent.isQuiet]
    · cases event <;> simp_all [QueueEvent.isQuiet, QueueEvent.enqueues]

/-- Whether the effect assigns to a command. -/
def QueueEffect.assigns : QueueEffect → Bool
  | .assign .. => true
  | _ => false

namespace Engine

variable {e : Engine} {xs : List QueueEffect} {queue : QueueRef}

theorem exec_assigns (h : ∀ x ∈ xs, x.assigns = true) : (e.exec xs).commands = e.commands ∧ (e.exec xs).persisted = e.persisted ∧
    (e.exec xs).jobs = e.jobs ∧ (e.exec xs).drainRequested = e.drainRequested ∧ (e.exec xs).draining = e.draining ∧
    (e.Holds queue → (e.exec xs).Holds queue) := by
  induction xs generalizing e with
  | nil => exact ⟨rfl, rfl, rfl, rfl, rfl, fun h => h⟩
  | cons x xs ih =>
    have hx := h x List.mem_cons_self
    obtain ⟨hcommands, hpersisted, hjobs, hrequested, hdraining, hholds⟩ := @ih (e.apply x) fun y hy => h y (List.mem_cons_of_mem x hy)
    cases x with
    | assign r a => exact ⟨hcommands, hpersisted, hjobs, hrequested, hdraining, hholds⟩
    | _ => cases hx

end Engine

namespace QueueState

variable {ι : Type} [DecidableEq ι] {q q' : QueueState ι} {i : ι} {s : Surroundings} {xs : List QueueEffect} {queue : QueueRef}
  {value : CommandRef → ItemSyncCommand} {f : ItemSyncCommand → Nat} {m r : CommandRef} {a : Assignment} {stretch : Stretch}

theorem log_effects_assigns (h : ∀ x ∈ xs, x.assigns = true) :
    ∃ events, (xs.foldl (applyEffect i) q).log = events ++ q.log ∧ ∀ event ∈ events, event.isQuiet = true := by
  induction xs generalizing q with
  | nil => exact ⟨[], rfl, fun event hevent => by cases hevent⟩
  | cons x xs ih =>
    obtain ⟨events, hlog, hquiet⟩ := @ih (q.applyEffect i x) fun y hy => h y (List.mem_cons_of_mem x hy)
    have hx := h x List.mem_cons_self
    cases x with
    | assign r a =>
      refine ⟨events ++ (q.engine i).events (.assign r a), by rw [List.foldl_cons, hlog]; simp [applyEffect], fun event hevent => ?_⟩
      rcases List.mem_append.mp hevent with hevent | hevent
      · exact hquiet event hevent
      · simp only [Engine.events] at hevent
        split at hevent <;> split at hevent <;> simp at hevent <;> rcases hevent with rfl | rfl <;> rfl
    | _ => cases hx

/-- Nothing is being written, and the queue and the document agree. -/
structure Calm (q : QueueState ι) (i : ι) : Prop where
  sound : q.Sound
  synced : q.Synced i
  jobs : (q.engine i).jobs = []

/-- The queue has the commands, with their values, and they are stored; the rest is as it was. -/
structure Stores (q q' : QueueState ι) (i : ι) (refs : List CommandRef) (value : CommandRef → ItemSyncCommand) : Prop where
  calm : q'.Calm i
  commands : ∀ r, r ∈ (q'.engine i).commands ↔ r ∈ refs
  values : ∀ r ∈ refs, (q'.engine i).command r = value r
  holds : ∀ queue, (q.engine i).Holds queue → (q'.engine i).Holds queue
  requested : (q'.engine i).drainRequested = (q.engine i).drainRequested
  draining : (q'.engine i).draining = (q.engine i).draining

/-- **Effects on commands that are stored.** -/
theorem Calm.persistThen (h : q.Calm i) (xs : List QueueEffect) (await : Nat → EngineAwait) (s : Surroundings)
    (hjobs : ((q.engine i).exec xs).jobs = (q.engine i).jobs) (hpersisted : ((q.engine i).exec xs).persisted = (q.engine i).persisted)
    (hnodup : (((q.engine i).exec xs).commands.map CommandRef.operation).Nodup)
    (hrequested : ((q.engine i).exec xs).drainRequested = (q.engine i).drainRequested)
    (hdraining : ((q.engine i).exec xs).draining = (q.engine i).draining)
    (hholds : ∀ queue, (q.engine i).Holds queue → ((q.engine i).exec xs).Holds queue) :
    ∃ id, (((q.runStretch i 0 ((q.engine i).andThen xs (Engine.persistThen await))).settle i s).engine i).call 0 = some (await id) ∧
      q.Stores ((q.runStretch i 0 ((q.engine i).andThen xs (Engine.persistThen await))).settle i s) i
        ((q.engine i).exec xs).commands ((q.engine i).exec xs).command ∧
      ((q.runStretch i 0 ((q.engine i).andThen xs (Engine.persistThen await))).settle i s).log = (xs.foldl (applyEffect i) q).log := by
  obtain ⟨id, hjobs', hcall, hcommands, hvalues, hpersisted'⟩ := @runStretch_persistThen _ _ q i 0 xs await h.jobs hjobs
  have hsound := h.sound.runStretch 0 ((q.engine i).andThen xs (Engine.persistThen await)) (i := i)
  have hdocument := @runStretch_document _ _ q i 0 ((q.engine i).andThen xs (Engine.persistThen await))
  have hlog : (q.runStretch i 0 ((q.engine i).andThen xs (Engine.persistThen await))).log = (xs.foldl (applyEffect i) q).log := by
    simp [QueueState.runStretch, Engine.andThen, Engine.persistThen, List.foldl_append, applyEffect, Engine.events]
  have hrest : (∀ queue, (q.engine i).Holds queue →
        ((q.runStretch i 0 ((q.engine i).andThen xs (Engine.persistThen await))).engine i).Holds queue) ∧
      ((q.runStretch i 0 ((q.engine i).andThen xs (Engine.persistThen await))).engine i).drainRequested =
        (q.engine i).drainRequested ∧
      ((q.runStretch i 0 ((q.engine i).andThen xs (Engine.persistThen await))).engine i).draining = (q.engine i).draining := by
    rw [runStretch_engine_self]
    simp only [Engine.andThen, Engine.persistThen, Engine.exec_append, Engine.exec_cons, Engine.exec_nil]
    exact ⟨hholds, hrequested, hdraining⟩
  generalize q.runStretch i 0 ((q.engine i).andThen xs (Engine.persistThen await)) = q' at *
  have hremembered : (q'.engine i).persisted = q'.document := by
    rw [hpersisted', hpersisted, h.synced.persisted, hdocument]
  have hsettle : q'.settle i s = q'.writeQueue i := by
    unfold settle
    rw [hjobs']
  obtain ⟨hmem, hkept, hrequested', hdraining', hlog', hholds'⟩ :=
    commands_writeQueue hsound hjobs' hremembered (hcommands ▸ hnodup)
  obtain ⟨-, -, hnone, hcall'⟩ := writeQueue_spec hjobs'
  rw [hsettle]
  refine ⟨id, by rw [hcall', hcall], ⟨⟨hsound.writeQueue hjobs', synced_writeQueue hjobs', hnone⟩, fun r => by rw [hmem, hcommands],
    fun r hr => ?_, fun queue hq => hholds' queue (hrest.1 queue hq), hrequested'.trans hrest.2.1, hdraining'.trans hrest.2.2⟩,
    hlog'.trans hlog⟩
  rw [hkept r (hcommands ▸ hr), hvalues]

omit [DecidableEq ι] in
theorem Calm.nodup (h : q.Calm i) : ((q.engine i).commands.map CommandRef.operation).Nodup := h.synced.nodup h.sound

/-- **Assignments that are stored.** -/
theorem Calm.stores (h : q.Calm i) (hxs : ∀ x ∈ xs, x.assigns = true) (await : Nat → EngineAwait) (s : Surroundings) :
    ∃ id events, (((q.runStretch i 0 ((q.engine i).andThen xs (Engine.persistThen await))).settle i s).engine i).call 0 = some (await id) ∧
      q.Stores ((q.runStretch i 0 ((q.engine i).andThen xs (Engine.persistThen await))).settle i s) i (q.engine i).commands
        ((q.engine i).exec xs).command ∧
      ((q.runStretch i 0 ((q.engine i).andThen xs (Engine.persistThen await))).settle i s).log = events ++ q.log ∧
      ∀ event ∈ events, event.isQuiet = true := by
  obtain ⟨hcommands, hpersisted, hjobs, hrequested, hdraining, -⟩ := @Engine.exec_assigns (q.engine i) xs 0 hxs
  obtain ⟨events, hlog, hquiet⟩ := @log_effects_assigns _ _ q i xs hxs
  obtain ⟨id, hcall, hstores, hlog'⟩ := h.persistThen xs await s hjobs hpersisted (hcommands ▸ h.nodup) hrequested hdraining
    fun queue => (@Engine.exec_assigns (q.engine i) xs queue hxs).2.2.2.2.2
  exact ⟨id, events, hcall, hcommands ▸ hstores, hlog'.trans hlog, hquiet⟩

/-- The sum of what the commands of the queue may cost. -/
def total (f : ItemSyncCommand → Nat) (i : ι) (q : QueueState ι) : Nat :=
  ((q.engine i).commands.map fun r => f ((q.engine i).command r)).sum

omit [DecidableEq ι] in
theorem Stores.total {refs : List CommandRef} (h : q.Stores q' i refs value) (hnodup : refs.Nodup) :
    q'.total f i = (refs.map fun r => f (value r)).sum := by
  have hperm : (q'.engine i).commands.Perm refs :=
    (List.perm_ext_iff_of_nodup (List.Nodup.of_map _ h.calm.nodup) hnodup).mpr h.commands
  rw [QueueState.total, (hperm.map _).sum_eq]
  exact congrArg List.sum (List.map_congr_left fun r hr => congrArg f (h.values r hr))

/-- One command gets cheaper, and none dearer. -/
theorem sum_map_le {l : List CommandRef} {g g' : CommandRef → Nat} {d : Nat} (hle : ∀ r ∈ l, g' r ≤ g r) (hm : m ∈ l)
    (hd : g' m + d ≤ g m) : (l.map g').sum + d ≤ (l.map g).sum := by
  induction l with
  | nil => cases hm
  | cons r l ih =>
    have hrest : (l.map g').sum ≤ (l.map g).sum := List.sum_le_sum fun r hr => hle r (List.mem_cons_of_mem _ hr)
    have hr := hle r List.mem_cons_self
    simp only [List.map_cons, List.sum_cons]
    rcases List.mem_cons.mp hm with rfl | hm
    · omega
    · have := ih (fun r hr => hle r (List.mem_cons_of_mem _ hr)) hm
      omega

end QueueState

/-! ## Requests -/

theorem requests_sent {operation : String} {r : CommandRef} {log : List QueueEvent} :
    requests operation (.sent r.operation :: log) = requests operation log + if r.operation = operation then 1 else 0 := by
  rw [requests, List.takeWhile_cons_of_pos (by rfl), List.countP_cons]
  congr 1
  by_cases h : r.operation = operation <;> simp [h]

/-- A command that comes has not been sent. -/
theorem requests_pushed {operation : String} {call : Nat} {c : ItemSyncCommand} {log : List QueueEvent} :
    requests operation (.decided c :: .pushed call c :: log) = if c.operation = operation then 0 else requests operation log := by
  by_cases h : c.operation = operation <;> simp [requests, QueueEvent.enqueues, h]

/-- The command whose request is under way, or has not been dealt with to the end. -/
def EngineAwait.mutation : EngineAwait → Option CommandRef
  | .request _ _ _ mutation | .rewriteIds _ _ _ mutation _ _ | .acknowledge _ _ _ mutation _ | .currentItem _ _ mutation
  | .reconcile _ _ mutation _ => some mutation
  | _ => none

/-- What a conflict copy of the command may cost, and a step more for each of its attempts. -/
def ItemSyncCommand.credit (c : ItemSyncCommand) : Nat := if c.isEdit then 16 * MAX_RETRY_COUNT else 0

namespace Engine

/-- What a drain that waits relies on. -/
def Awaits (e : Engine) : EngineAwait → Prop
  | .getClient queue first => e.Holds queue ∧ ∀ r, (e.array queue)[first]? = some r → (e.command r).isActiveMutation = true
  | .request queue _ _ mutation | .rewriteIds queue _ _ mutation _ _ | .acknowledge queue _ _ mutation _ | .currentItem queue _ mutation
  | .reconcile queue _ mutation _ =>
    e.Holds queue ∧ mutation ∈ e.commands ∧ (e.command mutation).isActiveMutation = true
  | .refusedWrite queue _ mutation _ | .preserveConflict mutation (.drain queue _) => e.Holds queue ∧ mutation ∈ e.commands
  | .acknowledgeWrite queue _ job => e.Holds queue ∧ ∀ mutation, e.conflicted job = some mutation → mutation ∈ e.commands
  | .retryWrite queue _ _ | .preserveFailure _ (.drain queue _) | .enqueueWrite _ _ (.preserveConflict _ (.drain queue _))
  | .enqueueSettle _ _ _ (.preserveConflict _ (.drain queue _)) => e.Holds queue
  | .enqueueApply _ command (.preserveConflict _ (.drain queue _)) => e.Holds queue ∧ (e.command command).isActiveMutation = true
  | .clientFailure _ => True
  | _ => False

/-- How many answers the drain may wait for before it sends the next request, with the copies that may come. -/
def phase (e : Engine) : EngineAwait → Nat
  | .clientFailure _ => 1
  | .reconcile .. | .acknowledge .. => 3
  | .currentItem .. | .rewriteIds .. => 4
  | .request .. => 5
  | .getClient .. | .retryWrite .. | .preserveFailure .. => 6
  | .enqueueSettle .. => 7
  | .enqueueApply .. => 8
  | .enqueueWrite .. => 9
  | .preserveConflict mutation _ => 10 + (e.command mutation).credit
  | .refusedWrite _ _ mutation _ => 11 + if (e.command mutation).status = some .conflicted then (e.command mutation).credit else 0
  | .acknowledgeWrite _ _ job => 11 + (e.conflicted job).elim 0 fun mutation => (e.command mutation).credit
  | _ => 0

end Engine

namespace QueueState

variable {ι : Type} [DecidableEq ι] {q q' : QueueState ι} {i : ι} {s : Surroundings} {xs : List QueueEffect} {queue : QueueRef}
  {m r : CommandRef} {a : Assignment} {attempted : List String} {flying flying' : Option CommandRef}

/-- No command is sent more often than it may be; `flying` is the one that is under way. -/
structure Sparing (q : QueueState ι) (i : ι) (flying : Option CommandRef) : Prop where
  requests : ∀ operation, requests operation q.log ≤ MAX_RETRY_COUNT
  left : ∀ r ∈ (q.engine i).commands, Bittery.requests r.operation q.log + ((q.engine i).command r).attemptsLeft ≤
    MAX_RETRY_COUNT + if flying = some r then 1 else 0

/-- **The invariant of the drains.** -/
structure Drains (q : QueueState ι) (i : ι) : Prop where
  calm : q.Calm i
  requested : (q.engine i).call 0 ≠ none → (q.engine i).drainRequested = false
  draining : (q.engine i).call 0 = none → (q.engine i).draining = false
  sparing : q.Sparing i (((q.engine i).call 0).bind EngineAwait.mutation)
  awaits : ∀ w, (q.engine i).call 0 = some w → (q.engine i).Awaits w

/-- **The measure of a drain.** -/
def remaining (i : ι) (q : QueueState ι) : Nat :=
  16 * q.total ItemSyncCommand.cost i + ((q.engine i).call 0).elim 0 (q.engine i).phase

theorem settle_of_nil (h : (q.engine i).jobs = []) : q.settle i s = q := by
  unfold settle
  rw [h]

/-- Effects that leave the commands and what is stored of them alone. -/
theorem Calm.still (h : q.Calm i) (stretch : Stretch) (hcommands : ((q.engine i).exec stretch.effects).commands = (q.engine i).commands)
    (hcommand : ((q.engine i).exec stretch.effects).command = (q.engine i).command)
    (hpersisted : ((q.engine i).exec stretch.effects).persisted = (q.engine i).persisted)
    (hjobs : ((q.engine i).exec stretch.effects).jobs = (q.engine i).jobs) :
    (q.runStretch i 0 stretch).settle i s = q.runStretch i 0 stretch ∧ (q.runStretch i 0 stretch).Calm i := by
  have hnil : ((q.runStretch i 0 stretch).engine i).jobs = [] := by
    rw [runStretch_engine_self]
    exact hjobs.trans h.jobs
  refine ⟨settle_of_nil hnil, h.sound.runStretch 0 stretch, ⟨?_, ?_⟩, hnil⟩
  · rw [runStretch_document, runStretch_engine_self, ← h.synced.commands, ← hcommands, ← hcommand]
    rfl
  · rw [runStretch_document, runStretch_engine_self, ← h.synced.persisted]
    exact hpersisted

omit [DecidableEq ι] in
/-- What the values of the commands mean for their attempts. -/
theorem Sparing.stores {refs : List CommandRef} {value : CommandRef → ItemSyncCommand} {events : List QueueEvent}
    (h : q.Sparing i flying) (hstores : q.Stores q' i refs value) (hlog : q'.log = events ++ q.log)
    (hquiet : ∀ event ∈ events, event.isQuiet = true) (hrefs : ∀ r ∈ refs, r ∈ (q.engine i).commands)
    (hle : ∀ r ∈ refs, (value r).attemptsLeft + (if flying = some r then 1 else 0) ≤
      ((q.engine i).command r).attemptsLeft + if flying' = some r then 1 else 0) : q'.Sparing i flying' := by
  have hsame := fun operation => @requests_append operation events q.log hquiet
  refine ⟨fun operation => ?_, fun r hr => ?_⟩
  · rw [hlog, hsame]
    exact h.requests operation
  · have hr' := (hstores.commands r).mp hr
    have hleft := h.left r (hrefs r hr')
    have := hle r hr'
    rw [hlog, hsame, hstores.values r hr']
    omega

/-- **A stretch that assigns and waits for the write.** -/
theorem Calm.assigned (h : q.Calm i) (hrequested : (q.engine i).drainRequested = false) (hsparing : q.Sparing i flying)
    (hxs : ∀ x ∈ xs, x.assigns = true) (await : Nat → EngineAwait) {n : Nat} (hflying : ∀ id, (await id).mutation = flying')
    (hle : ∀ r ∈ (q.engine i).commands, (((q.engine i).exec xs).command r).attemptsLeft + (if flying = some r then 1 else 0) ≤
      ((q.engine i).command r).attemptsLeft + if flying' = some r then 1 else 0)
    (hawait : ∀ (e : Engine) id, (∀ r, r ∈ e.commands ↔ r ∈ (q.engine i).commands) →
      (∀ r ∈ (q.engine i).commands, e.command r = ((q.engine i).exec xs).command r) →
      (∀ queue, (q.engine i).Holds queue → e.Holds queue) → e.Awaits (await id) ∧ e.phase (await id) ≤ n) :
    ((q.runStretch i 0 ((q.engine i).andThen xs (Engine.persistThen await))).settle i s).Drains i ∧
      ((q.runStretch i 0 ((q.engine i).andThen xs (Engine.persistThen await))).settle i s).remaining i ≤
        16 * ((q.engine i).commands.map fun r => (((q.engine i).exec xs).command r).cost).sum + n := by
  obtain ⟨id, events, hcall, hstores, hlog, hquiet⟩ := h.stores hxs await s
  generalize (q.runStretch i 0 ((q.engine i).andThen xs (Engine.persistThen await))).settle i s = q' at *
  obtain ⟨hawaits, hphase⟩ := hawait (q'.engine i) id hstores.commands hstores.values hstores.holds
  refine ⟨⟨hstores.calm, fun _ => hstores.requested.trans hrequested, fun hnone => ?_, ?_, fun w hw => ?_⟩, ?_⟩
  · rw [hcall] at hnone
    cases hnone
  · rw [hcall, Option.bind_some, hflying]
    exact hsparing.stores hstores hlog hquiet (fun r hr => hr) hle
  · rw [hcall] at hw
    exact Option.some.inj hw ▸ hawaits
  · rw [remaining, hcall, Option.elim_some, hstores.total (List.Nodup.of_map _ h.nodup)]
    omega

/-- **An attempt that ends**: its command has one less, and what a conflict saves is enough for the copy. -/
theorem Calm.ended (h : q.Calm i) (hrequested : (q.engine i).drainRequested = false) (hsparing : q.Sparing i flying)
    (hflying : ∀ r, flying = some r → r = m) (hm : m ∈ (q.engine i).commands)
    (hactive : ((q.engine i).command m).isActiveMutation = true) (ha : a.endsAttempt = true) (await : Nat → EngineAwait)
    (hmutation : ∀ id, (await id).mutation = none)
    (hawait : ∀ (e : Engine) id, e.command m = ((q.engine i).command m).assign a → m ∈ e.commands →
      (∀ queue, (q.engine i).Holds queue → e.Holds queue) → e.Awaits (await id) ∧
        e.phase (await id) ≤ 11 + if (e.command m).status = some .conflicted then (e.command m).credit else 0) :
    ((q.runStretch i 0 ((q.engine i).andThen [.assign m a] (Engine.persistThen await))).settle i s).Drains i ∧
      ((q.runStretch i 0 ((q.engine i).andThen [.assign m a] (Engine.persistThen await))).settle i s).remaining i + 5 ≤
        16 * q.total ItemSyncCommand.cost i := by
  obtain ⟨⟨hleft, hcost⟩, hconflicted⟩ := @ItemSyncCommand.cost_assign_endsAttempt ((q.engine i).command m) a hactive ha
  have hself : ((q.engine i).exec [.assign m a]).command m = ((q.engine i).command m).assign a := Engine.command_assign_self
  have hothers : ∀ r, r ≠ m → ((q.engine i).exec [.assign m a]).command r = (q.engine i).command r :=
    fun r hr => Engine.command_assign_of_ne hr
  have hle : ∀ r ∈ (q.engine i).commands, (((q.engine i).exec [.assign m a]).command r).attemptsLeft + (if flying = some r then 1 else 0) ≤
      ((q.engine i).command r).attemptsLeft + if none = some r then 1 else 0 := fun r hr => by
    by_cases hrm : r = m
    · subst hrm
      rw [hself]
      have hone : (if flying = some r then 1 else 0) ≤ 1 := by split <;> decide
      simp only [reduceCtorEq, if_false]
      omega
    · rw [hothers r hrm, if_neg fun hr => hrm (hflying r hr)]
      exact Nat.le_add_right _ _
  obtain ⟨hdrains, hremaining⟩ := @Calm.assigned _ _ q i s [.assign m a] flying none h hrequested
    hsparing (by simp [QueueEffect.assigns]) await
    (11 + if (((q.engine i).command m).assign a).status = some .conflicted then (((q.engine i).command m).assign a).credit else 0)
    hmutation hle fun e id hcommands hvalues hholds => by
      have hvalue := (hvalues m hm).trans hself
      obtain ⟨hawaits, hphase⟩ := hawait e id hvalue ((hcommands m).mpr hm) hholds
      rw [hvalue] at hphase
      exact ⟨hawaits, hphase⟩
  refine ⟨hdrains, ?_⟩
  have hcheaper : ∀ d, (((q.engine i).command m).assign a).cost + d ≤ ((q.engine i).command m).cost →
      ((q.engine i).commands.map fun r => (((q.engine i).exec [.assign m a]).command r).cost).sum + d ≤
        q.total ItemSyncCommand.cost i := fun d hd => by
    refine sum_map_le (fun r hr => ?_) hm (by rw [hself]; exact hd)
    by_cases hrm : r = m
    · subst hrm
      rw [hself]
      omega
    · rw [hothers r hrm]
  have hone := hcheaper 1 hcost
  split at hremaining
  · next hstatus =>
    unfold ItemSyncCommand.credit at hremaining
    split at hremaining
    · next hedit =>
      have := hcheaper (MAX_RETRY_COUNT + 2) (hconflicted hstatus (by rwa [ItemSyncCommand.isEdit_assign] at hedit))
      omega
    · omega
  · omega

theorem call_runStretch (stretch : Stretch) : ((q.runStretch i 0 stretch).engine i).call 0 = stretch.await := by
  simp [runStretch_engine_self]

omit [DecidableEq ι] in
theorem isActiveMutation_of_isReadyMutation {c : ItemSyncCommand} {now : Nat} (h : c.isReadyMutation now = true) :
    c.isActiveMutation = true := by
  rw [ItemSyncCommand.isReadyMutation, Bool.and_eq_true] at h
  unfold ItemSyncCommand.isActiveMutation
  cases hstatus : c.status with
  | none => rfl
  | some status => cases status <;> first | rfl | (rw [hstatus] at h; cases h.1)

/-- A pass ends, and with it the drain, for nobody has asked for a further one. -/
theorem Calm.endPass (h : q.Calm i) (hrequested : (q.engine i).drainRequested = false) (hsparing : q.Sparing i none) (now : Nat) :
    ((q.runStretch i 0 ((q.engine i).endPass now)).settle i s).Drains i ∧
      ((q.runStretch i 0 ((q.engine i).endPass now)).settle i s).remaining i = 16 * q.total ItemSyncCommand.cost i := by
  have hstretch : (q.engine i).endPass now = ⟨[.setDraining false], none⟩ := by
    rw [Engine.endPass, hrequested]
    rfl
  rw [hstretch]
  obtain ⟨hsettle, hcalm⟩ := @Calm.still _ _ q i s h ⟨[.setDraining false], none⟩ rfl rfl rfl rfl
  rw [hsettle]
  have hcall : ((q.runStretch i 0 ⟨[.setDraining false], none⟩).engine i).call 0 = none := call_runStretch _
  refine ⟨⟨hcalm, fun hsome => absurd hcall hsome, fun _ => by rw [runStretch_engine_self]; rfl, ?_, fun w hw => ?_⟩, ?_⟩
  · rw [hcall]
    refine ⟨hsparing.requests, fun r hr => ?_⟩
    rw [runStretch_engine_self] at hr ⊢
    exact hsparing.left r hr
  · rw [hcall] at hw
    cases hw
  · rw [remaining, hcall, total, runStretch_engine_self]
    rfl

/-- **The loop of a drain**: a request, or the end of the pass, or an attempt that has failed already. -/
theorem Calm.drainLoop (h : q.Calm i) (hrequested : (q.engine i).drainRequested = false) (hsparing : q.Sparing i none)
    (hholds : (q.engine i).Holds queue) (s' : Surroundings) :
    ((q.runStretch i 0 ((q.engine i).drainLoop s' queue attempted)).settle i s).Drains i ∧
      ((q.runStretch i 0 ((q.engine i).drainLoop s' queue attempted)).settle i s).remaining i ≤
        16 * q.total ItemSyncCommand.cost i + 5 := by
  have hends := @Calm.endPass _ _ q i s h hrequested hsparing s'.now
  unfold Engine.drainLoop
  split
  · exact ⟨hends.1, by rw [hends.2]; exact Nat.le_add_right _ _⟩
  · next index hfind =>
    split
    · exact ⟨hends.1, by rw [hends.2]; exact Nat.le_add_right _ _⟩
    · next mutation hget =>
      have hm : mutation ∈ (q.engine i).commands := hholds.array ▸ List.mem_of_getElem? hget
      have hactive : ((q.engine i).command mutation).isActiveMutation = true := by
        have hrunnable := List.find?_some hfind
        simp only [Engine.isRunnable, hget, Bool.and_eq_true] at hrunnable
        exact isActiveMutation_of_isReadyMutation hrunnable.1.1
      have hsent : ∀ w, w = EngineAwait.request queue attempted index mutation →
          ((q.runStretch i 0 ⟨[.note (.sent mutation.operation)], some w⟩).settle i s).Drains i ∧
            ((q.runStretch i 0 ⟨[.note (.sent mutation.operation)], some w⟩).settle i s).remaining i ≤
              16 * q.total ItemSyncCommand.cost i + 5 := by
        intro w hw
        obtain ⟨hsettle, hcalm⟩ := @Calm.still _ _ q i s h ⟨[.note (.sent mutation.operation)], some w⟩ rfl rfl rfl rfl
        rw [hsettle]
        have hcall : ((q.runStretch i 0 ⟨[.note (.sent mutation.operation)], some w⟩).engine i).call 0 = some w :=
          call_runStretch _
        have hlog : (q.runStretch i 0 ⟨[.note (.sent mutation.operation)], some w⟩).log = .sent mutation.operation :: q.log := rfl
        have hpos := ItemSyncCommand.attemptsLeft_pos hactive
        have hleft := hsparing.left mutation hm
        rw [if_neg (by simp)] at hleft
        refine ⟨⟨hcalm, fun _ => ?_, fun hnone => ?_, ⟨fun operation => ?_, fun r hr => ?_⟩, fun w' hw' => ?_⟩, ?_⟩
        · rw [runStretch_engine_self]
          exact hrequested
        · rw [hcall] at hnone
          cases hnone
        · rw [hlog, requests_sent]
          by_cases hop : mutation.operation = operation
          · subst hop
            simp only [if_true]
            omega
          · rw [if_neg hop]
            exact hsparing.requests operation
        · rw [hcall, hlog, requests_sent, hw]
          rw [runStretch_engine_self] at hr ⊢
          have hr' : r ∈ (q.engine i).commands := hr
          have hleft' := hsparing.left r hr'
          rw [if_neg (by simp)] at hleft'
          by_cases hop : mutation.operation = r.operation
          · obtain rfl := List.inj_on_of_nodup_map h.nodup hm hr' hop
            simp only [if_true, Option.bind_some, EngineAwait.mutation]
            exact Nat.add_right_comm .. ▸ Nat.add_le_add_right hleft' 1
          · rw [if_neg hop]
            exact Nat.le_trans hleft' (Nat.le_add_right _ _)
        · rw [hcall] at hw'
          obtain rfl := Option.some.inj hw'
          rw [runStretch_engine_self, hw]
          exact ⟨hholds, hm, hactive⟩
        · rw [remaining, hcall, total, runStretch_engine_self, hw]
          exact Nat.le_refl _
      simp only []
      split
      · exact hsent _ rfl
      · split
        · exact hsent _ rfl
        · next error _ =>
          obtain ⟨hdrains, hremaining⟩ := @Calm.ended _ _ q i s mutation (.retry s'.now s'.suffix error) none h hrequested hsparing
            (fun r hr => by cases hr) hm hactive rfl (.retryWrite queue (mutation.operation :: attempted)) (fun _ => rfl)
            fun _ _ _ _ hkeeps => ⟨hkeeps queue hholds, Nat.le_trans (by decide : 6 ≤ 11) (Nat.le_add_right _ _)⟩
          exact ⟨hdrains, Nat.le_trans (Nat.le_add_right _ 5) (Nat.le_trans hremaining (Nat.le_add_right _ _))⟩

/-- The rest of a stretch goes on where its first effects end. -/
theorem runStretch_andThen (xs : List QueueEffect) (rest : Engine → Stretch) :
    q.runStretch i 0 ((q.engine i).andThen xs rest) =
      (xs.foldl (applyEffect i) q).runStretch i 0 (rest ((xs.foldl (applyEffect i) q).engine i)) := by
  rw [effects_engine_self]
  simp only [QueueState.runStretch, Engine.andThen, List.foldl_append]

omit [DecidableEq ι] in
theorem Sparing.of_log (h : q.Sparing i flying) (events : List QueueEvent) (hlog : q'.log = events ++ q.log)
    (hquiet : ∀ event ∈ events, event.isQuiet = true) (hcommands : (q'.engine i).commands = (q.engine i).commands)
    (hcommand : (q'.engine i).command = (q.engine i).command) : q'.Sparing i flying := by
  have hsame := fun operation => @requests_append operation events q.log hquiet
  refine ⟨fun operation => ?_, fun r hr => ?_⟩
  · rw [hlog, hsame]
    exact h.requests operation
  · rw [hlog, hsame, hcommand]
    exact h.left r (hcommands ▸ hr)

/-- Something that has happened is noted. -/
theorem Calm.note (h : q.Calm i) (hsparing : q.Sparing i flying) (event : QueueEvent) (hquiet : event.isQuiet = true) :
    (q.applyEffect i (.note event)).engine i = q.engine i ∧ (q.applyEffect i (.note event)).Calm i ∧
      (q.applyEffect i (.note event)).Sparing i flying := by
  have hself : (q.applyEffect i (.note event)).engine i = q.engine i := applyEffect_engine_self _
  refine ⟨hself, ⟨⟨h.sound.document, fun j => ?_⟩, ⟨?_, ?_⟩, ?_⟩, ?_⟩
  · by_cases hj : j = i
    · subst hj
      rw [hself]
      exact h.sound.engine j
    · rw [show (q.applyEffect i (.note event)).engine j = q.engine j from setEngine_of_ne hj _]
      exact h.sound.engine j
  · rw [hself]
    exact h.synced.commands
  · rw [hself]
    exact h.synced.persisted
  · rw [hself]
    exact h.jobs
  · refine hsparing.of_log [event] rfl (by simp [hquiet]) (by rw [hself]) (by rw [hself])

/-- **A stretch that only waits for something else.** -/
theorem Calm.waits {w : EngineAwait} (h : q.Calm i) (hrequested : (q.engine i).drainRequested = false)
    (hsparing : q.Sparing i w.mutation) (hawaits : (q.engine i).Awaits w) :
    ((q.runStretch i 0 ⟨[], some w⟩).settle i s).Drains i ∧
      ((q.runStretch i 0 ⟨[], some w⟩).settle i s).remaining i = 16 * q.total ItemSyncCommand.cost i + (q.engine i).phase w := by
  obtain ⟨hsettle, hcalm⟩ := @Calm.still _ _ q i s h ⟨[], some w⟩ rfl rfl rfl rfl
  rw [hsettle]
  have hcall : ((q.runStretch i 0 ⟨[], some w⟩).engine i).call 0 = some w := call_runStretch _
  refine ⟨⟨hcalm, fun _ => by rw [runStretch_engine_self]; exact hrequested, fun hnone => ?_, ?_, fun w' hw' => ?_⟩, ?_⟩
  · rw [hcall] at hnone
    cases hnone
  · rw [hcall, Option.bind_some]
    exact hsparing.of_log [] rfl (by simp) (by rw [runStretch_engine_self]; rfl) (by rw [runStretch_engine_self]; rfl)
  · rw [hcall] at hw'
    obtain rfl := Option.some.inj hw'
    rw [runStretch_engine_self]
    exact hawaits
  · rw [remaining, hcall, total, runStretch_engine_self]
    rfl

theorem push_holds {e : Engine} {c : ItemSyncCommand} (hne : e.commands ≠ []) (h : e.Holds queue) : (e.push c).Holds queue := by
  rcases h with h | ⟨h, -⟩
  · exact .inl (by simp [Engine.push, Engine.setQueue, Engine.new, Engine.setCommand, Engine.setArray, h])
  · exact absurd (show e.commands = [] by simp [Engine.commands, h]) hne

theorem push_flags {e : Engine} {c : ItemSyncCommand} : (e.push c).drainRequested = e.drainRequested ∧ (e.push c).draining = e.draining := by
  rw [Engine.push, Engine.setQueue]
  split <;> exact ⟨rfl, rfl⟩

omit [DecidableEq ι] in
/-- The queue after a push has the command, and the others as they were. -/
theorem Calm.push (h : q.Calm i) {c : ItemSyncCommand} (hnew : ((q.engine i).commands.any fun r => r.operation = c.operation) = false) :
    (∀ r, r ∈ ((q.engine i).push c).commands ↔ r ∈ (q.engine i).commands ∨ r = ((q.engine i).new c).2) ∧
      ((q.engine i).push c).command ((q.engine i).new c).2 = c ∧
      (∀ r ∈ (q.engine i).commands, ((q.engine i).push c).command r = (q.engine i).command r) ∧
      (((q.engine i).push c).commands.map CommandRef.operation).Nodup ∧
      ((q.engine i).push c).commands.Perm (((q.engine i).new c).2 :: (q.engine i).commands) := by
  have hperm : ((q.engine i).push c).commands.Perm (((q.engine i).new c).2 :: (q.engine i).commands) := by
    simp only [Engine.push, Engine.commands_setQueue, Engine.sortByTimestamp]
    exact (List.perm_insertionSort _ _).trans (List.perm_append_singleton _ _)
  refine ⟨fun r => ?_, ?_, fun r hr => ?_, ?_, hperm⟩
  · rw [hperm.mem_iff, List.mem_cons]
    exact or_comm
  · simp only [Engine.push, Engine.setQueue_command]
    exact Engine.command_new_self
  · simp only [Engine.push, Engine.setQueue_command]
    exact Engine.command_new_of_ne fun heq => Nat.lt_irrefl _ (heq ▸ (h.sound.engine i).commands hr)
  · rw [(hperm.map _).nodup_iff, List.map_cons, List.nodup_cons]
    refine ⟨fun hmem => ?_, h.nodup⟩
    obtain ⟨r, hr, hop⟩ := List.mem_map.mp hmem
    have hany := List.any_eq_false.mp hnew r hr
    exact hany (decide_eq_true hop)

/-- **A conflict copy comes**: it has all its attempts, and is no edit. -/
theorem Calm.pushes (h : q.Calm i) (hrequested : (q.engine i).drainRequested = false) (hsparing : q.Sparing i none)
    (hholds : (q.engine i).Holds queue) (hm : m ∈ (q.engine i).commands) {c : ItemSyncCommand} (hedit : c.isEdit = false)
    (hnew : ((q.engine i).commands.any fun r => r.operation = c.operation) = false) (operation : String) :
    ((q.runStretch i 0 ((q.engine i).andThen [.push 0 c]
        (Engine.persistThen fun job => .enqueueWrite operation job (.preserveConflict m (.drain queue attempted))))).settle i s).Drains i ∧
      ((q.runStretch i 0 ((q.engine i).andThen [.push 0 c]
        (Engine.persistThen fun job => .enqueueWrite operation job (.preserveConflict m (.drain queue attempted))))).settle i s).remaining i ≤
        16 * q.total ItemSyncCommand.cost i + 16 * MAX_RETRY_COUNT + 9 := by
  obtain ⟨hmem, hself, hothers, hnodup, hperm⟩ := h.push hnew
  obtain ⟨id, hcall, hstores, hlog⟩ := h.persistThen [.push 0 c]
    (fun job => .enqueueWrite operation job (.preserveConflict m (.drain queue attempted))) s (Engine.push_jobs _)
    (Engine.push_persisted _) hnodup push_flags.1 push_flags.2 fun queue hq => push_holds (List.ne_nil_of_mem hm) hq
  generalize (q.runStretch i 0 ((q.engine i).andThen [.push 0 c]
    (Engine.persistThen fun job => .enqueueWrite operation job (.preserveConflict m (.drain queue attempted))))).settle i s = q' at *
  have hlog' : q'.log = .decided c :: .pushed 0 c :: q.log := hlog
  have hne : ∀ r ∈ (q.engine i).commands, c.operation ≠ r.operation := fun r hr heq =>
    List.any_eq_false.mp hnew r hr (by simp [heq])
  have hattempts : c.attemptsLeft ≤ MAX_RETRY_COUNT := ItemSyncCommand.attemptsLeft_le
  refine ⟨⟨hstores.calm, fun _ => hstores.requested.trans hrequested, fun hnone => ?_, ⟨fun operation => ?_, fun r hr => ?_⟩,
    fun w hw => ?_⟩, ?_⟩
  · rw [hcall] at hnone
    cases hnone
  · rw [hlog', requests_pushed]
    split
    · exact Nat.zero_le _
    · exact hsparing.requests operation
  · have hr' := (hstores.commands r).mp hr
    rw [hlog', requests_pushed, hstores.values r hr']
    rcases (hmem r).mp hr' with hr | rfl
    · rw [if_neg (hne r hr), show ((q.engine i).exec [.push 0 c]).command r = (q.engine i).command r from hothers r hr]
      exact Nat.le_trans (hsparing.left r hr) (Nat.le_add_right _ _)
    · rw [if_pos (show c.operation = ((q.engine i).new c).2.operation from rfl),
        show ((q.engine i).exec [.push 0 c]).command ((q.engine i).new c).2 = c from hself, Nat.zero_add]
      exact Nat.le_trans hattempts (Nat.le_add_right _ _)
  · rw [hcall] at hw
    obtain rfl := Option.some.inj hw
    exact hstores.holds queue hholds
  · rw [remaining, hcall, Option.elim_some, hstores.total (List.Nodup.of_map _ hnodup)]
    have hsum : ((((q.engine i).exec [.push 0 c]).commands.map fun r => (((q.engine i).exec [.push 0 c]).command r).cost).sum) =
        c.cost + q.total ItemSyncCommand.cost i := by
      rw [show ((q.engine i).exec [.push 0 c]).commands = ((q.engine i).push c).commands from rfl, (hperm.map _).sum_eq,
        List.map_cons, List.sum_cons]
      refine congrArg₂ (· + ·) (congrArg ItemSyncCommand.cost hself) (congrArg List.sum (List.map_congr_left fun r hr => ?_))
      exact congrArg ItemSyncCommand.cost (hothers r hr)
    have hcost : c.cost = c.attemptsLeft := by simp [ItemSyncCommand.cost, hedit]
    rw [hsum, hcost]
    show 16 * (c.attemptsLeft + _) + 9 ≤ _
    omega

/-- What is left of a sum without one of its terms. -/
theorem sum_filter_add_le {l : List CommandRef} {g : CommandRef → Nat} {p : CommandRef → Bool} (hm : m ∈ l) (hp : p m = false) :
    ((l.filter p).map g).sum + g m ≤ (l.map g).sum := by
  induction l with
  | nil => cases hm
  | cons r l ih =>
    have hrest : ((l.filter p).map g).sum ≤ (l.map g).sum :=
      List.Sublist.sum_le_sum (List.filter_sublist.map g) fun _ _ => Nat.zero_le _
    rcases List.mem_cons.mp hm with rfl | hm
    · rw [List.filter_cons_of_neg (by simp [hp]), List.map_cons, List.sum_cons]
      omega
    · have := ih hm
      rw [List.map_cons, List.sum_cons]
      by_cases hr : p r = true
      · rw [List.filter_cons_of_pos hr, List.map_cons, List.sum_cons]
        omega
      · rw [List.filter_cons_of_neg hr]
        omega

/-- What an acknowledgement does: the command leaves, and the one that trails it is rebased. -/
theorem updateAcknowledged_eq (mutation : CommandRef) (version : Option Nat) (id : Nat) (rest : List PersistenceJob) :
    ∃ next xs conflicted, next = ((q.engine i).allocate q.document).2.filter (fun r => r.operation ≠ mutation.operation) ∧
      (q.updateAcknowledged i mutation version s id rest).engine i =
        { ((q.engine i).allocate q.document).1.exec xs with jobs := ⟨id, .acknowledged next conflicted⟩ :: rest } ∧
      (q.updateAcknowledged i mutation version s id rest).document =
        next.map (((q.engine i).allocate q.document).1.exec xs).command ∧
      (∃ events, (q.updateAcknowledged i mutation version s id rest).log = events ++ q.log ∧
        ∀ event ∈ events, event.isQuiet = true) ∧
      (xs = [] ∧ conflicted = none ∨ ∃ version chained, chained ∈ next ∧
        (((q.engine i).allocate q.document).1.command chained).isActiveMutation = true ∧
        xs = [.assign chained (.chained version s.copyId s.suffix)] ∧
        conflicted = if ((((q.engine i).allocate q.document).1.command chained).assign
          (.chained version s.copyId s.suffix)).status = some .conflicted then some chained.operation else none) := by
  unfold updateAcknowledged
  generalize hnext : ((q.engine i).allocate q.document).2.filter (fun r => r.operation ≠ mutation.operation) = next
  simp only [hnext]
  split
  · next version chained hchained =>
    have hmem := List.mem_of_find?_eq_some hchained
    have hfound := List.find?_some hchained
    rw [Bool.and_eq_true] at hfound
    refine ⟨next, [.assign chained (.chained version s.copyId s.suffix)], _, rfl, ?_, ?_, ?_,
      .inr ⟨version, chained, hmem, hfound.2, rfl, rfl⟩⟩
    · rw [setEngine_self, applyEffect_engine_self, setEngine_self]
      rfl
    · rw [setEngine_document, store_document, applyEffect_engine_self, setEngine_self]
      rfl
    · obtain ⟨events, hlog, hquiet⟩ := @log_effects_assigns _ _ (q.setEngine i ((q.engine i).allocate q.document).1) i
        [.assign chained (.chained version s.copyId s.suffix)] (by simp [QueueEffect.assigns])
      exact ⟨events, hlog, hquiet⟩
  · refine ⟨next, [], none, rfl, ?_, ?_, ⟨[], rfl, by simp⟩, .inl ⟨rfl, rfl⟩⟩
    · rw [setEngine_self]
      rfl
    · rw [setEngine_document, store_document]
      rfl

theorem holds_adopt {e : Engine} {l : List CommandRef} (h : e.queue = some queue) : (e.adoptReconciledQueue l).Holds queue := by
  cases l with
  | nil => exact .inr ⟨by simp [Engine.adoptReconciledQueue, h], by simp [Engine.adoptReconciledQueue, h, Engine.setArray]⟩
  | cons r l => exact .inl (by simp [Engine.adoptReconciledQueue, Engine.setQueue, h, Engine.setArray])

theorem settle_of_acknowledge {mutation : CommandRef} {version : Option Nat} {id : Nat}
    (h : (q.engine i).jobs = [⟨id, .acknowledge mutation version⟩]) {next : List CommandRef} {conflicted : Option String}
    (hjobs : ((q.updateAcknowledged i mutation version s id []).engine i).jobs = [⟨id, .acknowledged next conflicted⟩]) :
    q.settle i s = (q.updateAcknowledged i mutation version s id []).setEngine i
      { (q.updateAcknowledged i mutation version s id []).adopt i next false [] with
        conflicted := Function.update ((q.updateAcknowledged i mutation version s id []).engine i).conflicted id
          (conflicted.bind fun operation => next.find? fun r => r.operation = operation) } := by
  have hfirst : q.persist i s = some (q.updateAcknowledged i mutation version s id []) := by
    simp only [QueueState.persist, h]
  unfold settle
  rw [h]
  simp only [hfirst, Option.bind_some]
  simp only [QueueState.persist, hjobs, Option.getD_some]

/-- A command that is chained gets no dearer; if it gets into conflict, what that saves is enough for its copy. -/
theorem cost_chained {e : Engine} {next : List CommandRef} {conflicted : Option String} (hnodup : (next.map CommandRef.operation).Nodup)
    (hxs : xs = [] ∧ conflicted = none ∨ ∃ version chained, chained ∈ next ∧ (e.command chained).isActiveMutation = true ∧
      xs = [.assign chained (.chained version s.copyId s.suffix)] ∧
      conflicted = if ((e.command chained).assign (.chained version s.copyId s.suffix)).status = some .conflicted then
        some chained.operation else none) :
    (∀ r, ((e.exec xs).command r).attemptsLeft ≤ (e.command r).attemptsLeft) ∧
      16 * (next.map fun r => ((e.exec xs).command r).cost).sum +
        ((conflicted.bind fun operation => next.find? fun r => r.operation = operation).elim 0 fun r =>
          ((e.exec xs).command r).credit) ≤ 16 * (next.map fun r => (e.command r).cost).sum := by
  rcases hxs with ⟨rfl, rfl⟩ | ⟨version, chained, hchained, hactive, rfl, rfl⟩
  · exact ⟨fun r => Nat.le_refl _, Nat.le_refl _⟩
  · have hself : (e.exec [.assign chained (.chained version s.copyId s.suffix)]).command chained =
        (e.command chained).assign (.chained version s.copyId s.suffix) := Engine.command_assign_self
    have hothers : ∀ r, r ≠ chained → (e.exec [.assign chained (.chained version s.copyId s.suffix)]).command r = e.command r :=
      fun r hr => Engine.command_assign_of_ne hr
    obtain ⟨hleft, hcost⟩ := @ItemSyncCommand.cost_assign_le (e.command chained) (.chained version s.copyId s.suffix)
      (fun _ => hactive) rfl fun h => by cases h
    refine ⟨fun r => ?_, ?_⟩
    · by_cases hr : r = chained
      · subst hr
        rw [hself]
        exact hleft
      · rw [hothers r hr]
    · have hcheaper : ∀ d, ((e.command chained).assign (.chained version s.copyId s.suffix)).cost + d ≤ (e.command chained).cost →
          (next.map fun r => ((e.exec [.assign chained (.chained version s.copyId s.suffix)]).command r).cost).sum + d ≤
            (next.map fun r => (e.command r).cost).sum := fun d hd => by
        refine sum_map_le (fun r _ => ?_) hchained (by rw [hself]; exact hd)
        by_cases hr : r = chained
        · subst hr
          rw [hself]
          exact hcost
        · rw [hothers r hr]
      split
      · next hstatus =>
        have hfind : (next.find? fun r => r.operation = chained.operation) = some chained := by
          cases hfind : next.find? fun r => r.operation = chained.operation with
          | none => exact absurd (List.find?_eq_none.mp hfind chained hchained) (by simp)
          | some r =>
            have hop : r.operation = chained.operation := by simpa using List.find?_some hfind
            exact congrArg some (List.inj_on_of_nodup_map hnodup (List.mem_of_find?_eq_some hfind) hchained hop)
        rw [Option.bind_some, hfind, Option.elim_some, hself]
        have hended : ((e.command chained).assign (.chained version s.copyId s.suffix)).isActiveMutation = false := by
          simp [ItemSyncCommand.isActiveMutation, hstatus]
        have hzero := (ItemSyncCommand.attemptsLeft_of_ended hended).2
        unfold ItemSyncCommand.credit
        split
        · next hedit =>
          rw [ItemSyncCommand.isEdit_assign] at hedit
          have hc : (e.command chained).cost = (e.command chained).attemptsLeft + (MAX_RETRY_COUNT + 1) := by
            simp [ItemSyncCommand.cost, hactive, hedit]
          have := hcheaper (MAX_RETRY_COUNT + 1) (by omega)
          omega
        · have := hcheaper 0 hcost
          omega
      · have := hcheaper 0 hcost
        rw [Option.bind_none, Option.elim_none]
        omega

/-- **An acknowledgement**: the command leaves, and saves what it might have cost. -/
theorem Calm.acknowledges (h : q.Calm i) (hrequested : (q.engine i).drainRequested = false) (hsparing : q.Sparing i (some m))
    (hholds : (q.engine i).Holds queue) (hm : m ∈ (q.engine i).commands)
    (hactive : ((q.engine i).command m).isActiveMutation = true) (index : Nat) (version : Option Nat) :
    ((q.runStretch i 0 ((q.engine i).acknowledge queue attempted index m version)).settle i s).Drains i ∧
      ((q.runStretch i 0 ((q.engine i).acknowledge queue attempted index m version)).settle i s).remaining i + 5 ≤
        16 * q.total ItemSyncCommand.cost i := by
  -- The queue that the drain holds is the engine's, for the command is in it.
  have hqueue : (q.engine i).queue = some queue := by
    rcases hholds with hqueue | ⟨hnone, -⟩
    · exact hqueue
    · simp [Engine.commands, hnone] at hm
  have hsound := h.sound.runStretch 0 ((q.engine i).acknowledge queue attempted index m version) (i := i)
  have hdocument := @runStretch_document _ _ q i 0 ((q.engine i).acknowledge queue attempted index m version)
  have hlog : (q.runStretch i 0 ((q.engine i).acknowledge queue attempted index m version)).log = .acknowledged m.operation :: q.log := rfl
  have hcall : ((q.runStretch i 0 ((q.engine i).acknowledge queue attempted index m version)).engine i).call 0 =
      some (.acknowledgeWrite queue attempted (q.engine i).nextJob) := call_runStretch _
  have hflags : ((q.runStretch i 0 ((q.engine i).acknowledge queue attempted index m version)).engine i).drainRequested = false ∧
      ((q.runStretch i 0 ((q.engine i).acknowledge queue attempted index m version)).engine i).queue = some queue ∧
      ((q.runStretch i 0 ((q.engine i).acknowledge queue attempted index m version)).engine i).jobs =
        [⟨(q.engine i).nextJob, .acknowledge m version⟩] := by
    rw [runStretch_engine_self]
    refine ⟨hrequested, hqueue, ?_⟩
    simp [Engine.acknowledge, Engine.apply, Engine.schedule, Engine.setArray, h.jobs]
  generalize q.runStretch i 0 ((q.engine i).acknowledge queue attempted index m version) = q₁ at *
  obtain ⟨hrequested₁, hqueue₁, hjobs₁⟩ := hflags
  obtain ⟨next, xs, conflicted, hnext, hengine, hstored, ⟨events, hlog₂, hquiet⟩, hxs⟩ :=
    @updateAcknowledged_eq _ _ q₁ i s m version (q.engine i).nextJob []
  have hjobs₂ : ((q₁.updateAcknowledged i m version s (q.engine i).nextJob []).engine i).jobs =
      [⟨(q.engine i).nextJob, .acknowledged next conflicted⟩] := by rw [hengine]
  have hpersist₁ : q₁.persist i s = some (q₁.updateAcknowledged i m version s (q.engine i).nextJob []) := by
    simp only [QueueState.persist, hjobs₁]
  have hsound₂ := hsound.persist hpersist₁
  have hsettle := settle_of_acknowledge (s := s) hjobs₁ hjobs₂
  have hsound₃ : (q₁.settle i s).Sound := by
    rw [hsettle]
    exact hsound₂.persist (i := i) (s := s) (by simp only [QueueState.persist, hjobs₂])
  -- The state after the write.
  obtain ⟨harray, hqueue', hpersisted', -, hcall'⟩ := @Engine.allocate_frame (q₁.engine i) q₁.document
  have hflags' := @Engine.allocate_draining (q₁.engine i) q₁.document
  have hmap := @Engine.map_filter_allocate (q₁.engine i) q₁.document m.operation
  have hmem : ∀ r ∈ next, ((q₁.engine i).allocate q₁.document).1.command r ∈ q.document ∧ r.operation ≠ m.operation := by
    intro r hr
    rw [hnext, List.mem_filter] at hr
    exact ⟨hdocument ▸ Engine.mem_document_allocate hr.1, by simpa using hr.2⟩
  rw [← hnext] at hmap
  have hnodup : (next.map CommandRef.operation).Nodup := by
    rw [← Engine.operations_commands ((q₁.engine i).allocate q₁.document).1, hmap]
    exact List.Nodup.sublist (List.filter_sublist.map _) hsound.document
  obtain ⟨hleft, hcost⟩ := cost_chained hnodup hxs
  generalize he : ((q₁.engine i).allocate q₁.document).1 = e at *
  have hexec : (e.exec xs).queue = some queue ∧ (e.exec xs).drainRequested = false ∧
      (e.exec xs).call = (q₁.engine i).call := by
    have hfixed : (e.exec xs).queue = e.queue ∧ (e.exec xs).drainRequested = e.drainRequested ∧ (e.exec xs).call = e.call := by
      rcases hxs with ⟨rfl, -⟩ | ⟨_, _, -, -, rfl, -⟩ <;> exact ⟨rfl, rfl, rfl⟩
    exact ⟨hfixed.1.trans (hqueue'.trans hqueue₁), hfixed.2.1.trans (hflags'.2.trans hrequested₁), hfixed.2.2.trans hcall'⟩
  have hafter : ((q₁.settle i s).engine i).commands = next ∧ ((q₁.settle i s).engine i).command = (e.exec xs).command ∧
      ((q₁.settle i s).engine i).persisted = next.map (e.exec xs).command ∧ ((q₁.settle i s).engine i).jobs = [] ∧
      ((q₁.settle i s).engine i).drainRequested = false ∧ ((q₁.settle i s).engine i).Holds queue ∧
      ((q₁.settle i s).engine i).call 0 = some (.acknowledgeWrite queue attempted (q.engine i).nextJob) ∧
      ((q₁.settle i s).engine i).conflicted (q.engine i).nextJob =
        conflicted.bind fun operation => next.find? fun r => r.operation = operation := by
    rw [hsettle, setEngine_self]
    simp only [QueueState.adopt, hengine]
    refine ⟨@Engine.commands_adoptReconciledQueue _ next, Engine.adoptReconciledQueue_command, ?_, trivial, ?_, ?_, ?_, ?_⟩
    · simp only [Engine.rememberPersistedCommands, Engine.adoptReconciledQueue_command]
    · simp [hexec.2.1]
    · exact holds_adopt (e := { e.exec xs with jobs := ⟨(q.engine i).nextJob, .acknowledged next conflicted⟩ :: [] }) hexec.1
    · exact (congrFun Engine.adoptReconciledQueue_call 0).trans ((congrFun hexec.2.2 0).trans hcall)
    · exact Function.update_self ..
  obtain ⟨hcommands, hcommand, hpersisted, hjobs, hrequested₃, hholds₃, hcall₃, hconflicted⟩ := hafter
  have hdocument₃ : (q₁.settle i s).document = next.map (e.exec xs).command := by
    rw [hsettle, setEngine_document, hstored]
  have hlog₃ : (q₁.settle i s).log = (events ++ [.acknowledged m.operation]) ++ q.log := by
    rw [hsettle, setEngine_log, hlog₂, hlog, List.append_assoc]
    rfl
  generalize q₁.settle i s = q₃ at *
  have hquiet' : ∀ event ∈ events ++ [.acknowledged m.operation], event.isQuiet = true := fun event hevent => by
    rcases List.mem_append.mp hevent with hevent | hevent
    · exact hquiet event hevent
    · rw [List.mem_singleton.mp hevent]
      rfl
  have hsame := fun operation => @requests_append operation (events ++ [.acknowledged m.operation]) q.log hquiet'
  refine ⟨⟨⟨hsound₃, ⟨?_, ?_⟩, hjobs⟩, fun _ => hrequested₃, fun hnone => ?_, ⟨fun operation => ?_, fun r hr => ?_⟩, fun w hw => ?_⟩, ?_⟩
  · rw [hcommands, hcommand, hdocument₃]
  · rw [hpersisted, hdocument₃]
  · rw [hcall₃] at hnone
    cases hnone
  · rw [hlog₃, hsame]
    exact hsparing.requests operation
  · rw [hcommands] at hr
    obtain ⟨hin, hne⟩ := hmem r hr
    rw [← h.synced.commands] at hin
    obtain ⟨r₀, hr₀, hvalue⟩ := List.mem_map.mp hin
    have hop : r₀.operation = r.operation := by
      rw [← (q.engine i).operation_command r₀, hvalue, e.operation_command]
    have hbefore := hsparing.left r₀ hr₀
    rw [if_neg fun heq => hne (by rw [← hop, Option.some.inj heq]), hop, hvalue] at hbefore
    rw [hlog₃, hsame, hcommand]
    have := hleft r
    omega
  · rw [hcall₃] at hw
    obtain rfl := Option.some.inj hw
    refine ⟨hholds₃, fun mutation hmutation => ?_⟩
    rw [hconflicted] at hmutation
    obtain ⟨operation, -, hfind⟩ := Option.bind_eq_some_iff.mp hmutation
    rw [hcommands]
    exact List.mem_of_find?_eq_some hfind
  · have hpos := ItemSyncCommand.attemptsLeft_pos hactive
    have hcosts : ((q.engine i).command m).attemptsLeft ≤ ((q.engine i).command m).cost := by
      unfold ItemSyncCommand.cost
      split <;> omega
    have hleaves : (next.map fun r => (e.command r).cost).sum + ((q.engine i).command m).cost ≤ q.total ItemSyncCommand.cost i := by
      have hsum : (next.map fun r => (e.command r).cost) =
          ((q.engine i).commands.filter fun r => r.operation ≠ m.operation).map fun r => ((q.engine i).command r).cost := by
        have hfilter : next.map e.command =
            ((q.engine i).commands.filter fun r => r.operation ≠ m.operation).map (q.engine i).command := by
          rw [hmap, hdocument, ← h.synced.commands, List.filter_map]
          congr 2
          funext r
          simp [Engine.operation_command]
        have := congrArg (List.map ItemSyncCommand.cost) hfilter
        rwa [List.map_map, List.map_map] at this
      rw [hsum]
      exact sum_filter_add_le (g := fun r => ((q.engine i).command r).cost) hm (by simp)
    rw [remaining, hcall₃, Option.elim_some, total, hcommands, hcommand]
    simp only [Engine.phase, hconflicted, hcommand]
    omega

/-! ## The steps of a drain -/

variable {mutation : CommandRef} {index : Nat}

/-- The client is there, or the first command has to wait for it. -/
theorem Calm.clientAnswered (h : q.Calm i) (hrequested : (q.engine i).drainRequested = false) (hsparing : q.Sparing i none)
    (hholds : (q.engine i).Holds queue) (hactive : ∀ r, ((q.engine i).array queue)[index]? = some r →
      ((q.engine i).command r).isActiveMutation = true) (s' : Surroundings) (result : Except String Unit) :
    ((q.runStretch i 0 ((q.engine i).clientAnswered s' queue index result)).settle i s).Drains i ∧
      ((q.runStretch i 0 ((q.engine i).clientAnswered s' queue index result)).settle i s).remaining i ≤
        16 * q.total ItemSyncCommand.cost i + 5 := by
  cases result with
  | ok => exact h.drainLoop hrequested hsparing hholds s'
  | error error =>
    simp only [Engine.clientAnswered, Engine.clientFailed]
    split
    · obtain ⟨hdrains, hremaining⟩ := @Calm.endPass _ _ q i s h hrequested hsparing s'.now
      exact ⟨hdrains, by rw [hremaining]; exact Nat.le_add_right _ _⟩
    · next r hget =>
      obtain ⟨hdrains, hremaining⟩ := @Calm.ended _ _ q i s r (.retry s'.now s'.suffix error) none h hrequested hsparing
        (fun _ hr => by cases hr) (hholds.array ▸ List.mem_of_getElem? hget) (hactive r hget) rfl .clientFailure (fun _ => rfl)
        fun _ _ _ _ _ => ⟨trivial, Nat.le_trans (by decide : 1 ≤ 11) (Nat.le_add_right _ _)⟩
      exact ⟨hdrains, Nat.le_trans (Nat.le_add_right _ 5) (Nat.le_trans hremaining (Nat.le_add_right _ _))⟩

/-- An attempt that ends with the command refused, or to be tried again. -/
theorem Calm.refuses (h : q.Calm i) (hrequested : (q.engine i).drainRequested = false) (hsparing : q.Sparing i (some mutation))
    (hholds : (q.engine i).Holds queue) (hm : mutation ∈ (q.engine i).commands)
    (hactive : ((q.engine i).command mutation).isActiveMutation = true) (ha : a.endsAttempt = true) :
    ((q.runStretch i 0 ((q.engine i).andThen [.assign mutation a]
        (Engine.persistThen (.refusedWrite queue attempted mutation)))).settle i s).Drains i ∧
      ((q.runStretch i 0 ((q.engine i).andThen [.assign mutation a]
        (Engine.persistThen (.refusedWrite queue attempted mutation)))).settle i s).remaining i + 5 ≤
        16 * q.total ItemSyncCommand.cost i :=
  h.ended hrequested hsparing (fun _ hr => (Option.some.inj hr).symm) hm hactive ha (.refusedWrite queue attempted mutation) (fun _ => rfl)
    fun _ _ _ hmem hkeeps => ⟨⟨hkeeps queue hholds, hmem⟩, Nat.le_refl _⟩

theorem Calm.attemptFailed (h : q.Calm i) (hrequested : (q.engine i).drainRequested = false) (hsparing : q.Sparing i (some mutation))
    (hholds : (q.engine i).Holds queue) (hm : mutation ∈ (q.engine i).commands)
    (hactive : ((q.engine i).command mutation).isActiveMutation = true) (s' : Surroundings) (error : String) :
    ((q.runStretch i 0 ((q.engine i).attemptFailed s' queue attempted mutation error)).settle i s).Drains i ∧
      ((q.runStretch i 0 ((q.engine i).attemptFailed s' queue attempted mutation error)).settle i s).remaining i + 5 ≤
        16 * q.total ItemSyncCommand.cost i :=
  h.ended hrequested hsparing (fun _ hr => (Option.some.inj hr).symm) hm hactive rfl
    (.retryWrite queue (mutation.operation :: attempted)) (fun _ => rfl)
    fun _ _ _ _ hkeeps => ⟨hkeeps queue hholds, Nat.le_trans (by decide : 6 ≤ 11) (Nat.le_add_right _ _)⟩

/-- **The server has answered.** -/
theorem Calm.requestAnswered (h : q.Calm i) (hrequested : (q.engine i).drainRequested = false) (hsparing : q.Sparing i (some mutation))
    (hholds : (q.engine i).Holds queue) (hm : mutation ∈ (q.engine i).commands)
    (hactive : ((q.engine i).command mutation).isActiveMutation = true) (s' : Surroundings)
    (result : Except RequestError (Option Nat × Option String)) :
    ((q.runStretch i 0 ((q.engine i).requestAnswered s' queue attempted index mutation result)).settle i s).Drains i ∧
      ((q.runStretch i 0 ((q.engine i).requestAnswered s' queue attempted index mutation result)).settle i s).remaining i ≤
        16 * q.total ItemSyncCommand.cost i + 4 := by
  have hends : ∀ {q' : QueueState ι}, q'.Drains i ∧ q'.remaining i + 5 ≤ 16 * q.total ItemSyncCommand.cost i →
      q'.Drains i ∧ q'.remaining i ≤ 16 * q.total ItemSyncCommand.cost i + 4 := fun h => ⟨h.1, by omega⟩
  cases result with
  | ok answer =>
    obtain ⟨version, realId⟩ := answer
    have hacknowledges : ((q.runStretch i 0 ⟨[], some (.acknowledge queue attempted index mutation version)⟩).settle i s).Drains i ∧
        ((q.runStretch i 0 ⟨[], some (.acknowledge queue attempted index mutation version)⟩).settle i s).remaining i ≤
          16 * q.total ItemSyncCommand.cost i + 4 := by
      obtain ⟨hdrains, hremaining⟩ := @Calm.waits _ _ q i s (.acknowledge queue attempted index mutation version) h hrequested hsparing
        ⟨hholds, hm, hactive⟩
      exact ⟨hdrains, by rw [hremaining]; exact Nat.add_le_add_left (by decide : 3 ≤ 4) _⟩
    simp only [Engine.requestAnswered, Engine.responded]
    split
    · exact hacknowledges
    · next realId =>
      split
      · exact hacknowledges
      · split
        · exact hacknowledges
        · generalize List.filter _ (q.engine i).commands = touched
          -- The ids of the touched commands change, and nothing that counts here.
          have hkeeps : ∀ (e : Engine) (refs : List CommandRef) r,
              ((e.exec (refs.map fun r => .assign r (.entityId realId))).command r).attemptsLeft = (e.command r).attemptsLeft ∧
              ((e.exec (refs.map fun r => .assign r (.entityId realId))).command r).cost = (e.command r).cost ∧
              ((e.exec (refs.map fun r => .assign r (.entityId realId))).command r).isActiveMutation = (e.command r).isActiveMutation := by
            intro e refs r
            induction refs generalizing e with
            | nil => exact ⟨rfl, rfl, rfl⟩
            | cons r' refs ih =>
              rw [List.map_cons, Engine.exec_cons]
              obtain ⟨hleft, hcost, hsame⟩ := ih (e.apply (.assign r' (.entityId realId)))
              rw [hleft, hcost, hsame]
              by_cases hr : r = r'
              · subst hr
                rw [Engine.command_assign_self]
                exact ⟨rfl, rfl, rfl⟩
              · rw [Engine.command_assign_of_ne hr]
                exact ⟨rfl, rfl, rfl⟩
          obtain ⟨hdrains, hremaining⟩ := @Calm.assigned _ _ q i s (touched.map fun r => .assign r (.entityId realId)) (some mutation)
            (some mutation) h hrequested hsparing (by simp [QueueEffect.assigns]) (.rewriteIds queue attempted index mutation version) 4
            (fun _ => rfl) (fun r _ => by rw [(hkeeps _ _ r).1]) fun e id hcommands hvalues hholds' =>
              ⟨⟨hholds' queue hholds, (hcommands mutation).mpr hm, by rw [hvalues mutation hm, (hkeeps _ _ _).2.2]; exact hactive⟩,
                Nat.le_refl _⟩
          refine ⟨hdrains, Nat.le_trans hremaining (Nat.le_of_eq ?_)⟩
          rw [total]
          congr 3
          exact List.map_congr_left fun r _ => (hkeeps _ _ r).2.1
  | error error =>
    cases error with
    | conflict =>
      obtain ⟨hself, hcalm, hsparing'⟩ := h.note hsparing (.refused mutation.operation) rfl
      have hand := @runStretch_andThen _ _ q i [.note (.refused mutation.operation)] fun _ => ⟨[], some (.currentItem queue attempted mutation)⟩
      obtain ⟨hdrains, hremaining⟩ := @Calm.waits _ _ (q.applyEffect i (.note (.refused mutation.operation))) i s
        (.currentItem queue attempted mutation) hcalm (by rw [hself]; exact hrequested) hsparing' (by rw [hself]; exact ⟨hholds, hm, hactive⟩)
      have hstretch : (q.engine i).requestAnswered s' queue attempted index mutation (.error .conflict) =
          (q.engine i).andThen [.note (.refused mutation.operation)] fun _ => ⟨[], some (.currentItem queue attempted mutation)⟩ := rfl
      rw [hstretch, hand]
      refine ⟨hdrains, Nat.le_trans (Nat.le_of_eq hremaining) (Nat.le_of_eq ?_)⟩
      rw [total, hself]
      rfl
    | badRequest message => exact hends (h.refuses hrequested hsparing hholds hm hactive rfl)
    | notFound message =>
      refine hends (h.refuses hrequested hsparing hholds hm hactive ?_)
      split <;> rfl
    | unavailable message => exact hends (h.attemptFailed hrequested hsparing hholds hm hactive s' message)

/-- The drain goes on after a conflict, with what it notes. -/
theorem Calm.noteThenLoop (h : q.Calm i) (hrequested : (q.engine i).drainRequested = false) (hsparing : q.Sparing i none)
    (hholds : (q.engine i).Holds queue) (event : QueueEvent) (hquiet : event.isQuiet = true) (s' : Surroundings) :
    ((q.runStretch i 0 ((q.engine i).andThen [.note event] fun e => e.drainLoop s' queue attempted)).settle i s).Drains i ∧
      ((q.runStretch i 0 ((q.engine i).andThen [.note event] fun e => e.drainLoop s' queue attempted)).settle i s).remaining i ≤
        16 * q.total ItemSyncCommand.cost i + 5 := by
  obtain ⟨hself, hcalm, hsparing'⟩ := h.note hsparing event hquiet
  obtain ⟨hdrains, hremaining⟩ := @Calm.drainLoop _ _ (q.applyEffect i (.note event)) i s queue attempted hcalm
    (by rw [hself]; exact hrequested) hsparing' (by rw [hself]; exact hholds) s'
  rw [runStretch_andThen]
  refine ⟨hdrains, Nat.le_trans hremaining (Nat.le_of_eq ?_)⟩
  rw [total, hself]
  rfl

theorem Calm.preserveFailed (h : q.Calm i) (hrequested : (q.engine i).drainRequested = false) (hsparing : q.Sparing i none)
    (hholds : (q.engine i).Holds queue) (error : String) :
    ((q.runStretch i 0 ((q.engine i).preserveFailed mutation (.drain queue attempted) error)).settle i s).Drains i ∧
      ((q.runStretch i 0 ((q.engine i).preserveFailed mutation (.drain queue attempted) error)).settle i s).remaining i ≤
        16 * q.total ItemSyncCommand.cost i + 6 := by
  have hle : ∀ r, (((q.engine i).exec [.assign mutation (.preserveFailed error)]).command r).attemptsLeft ≤ ((q.engine i).command r).attemptsLeft ∧
      (((q.engine i).exec [.assign mutation (.preserveFailed error)]).command r).cost ≤ ((q.engine i).command r).cost := by
    intro r
    by_cases hr : r = mutation
    · subst hr
      rw [show ((q.engine i).exec [.assign r (.preserveFailed error)]).command r = _ from Engine.command_assign_self]
      exact ItemSyncCommand.cost_assign_le (fun h => h.elim nofun fun ⟨_, _, _, h⟩ => by cases h) rfl nofun
    · rw [show ((q.engine i).exec [.assign mutation (.preserveFailed error)]).command r = _ from Engine.command_assign_of_ne hr]
      exact ⟨Nat.le_refl _, Nat.le_refl _⟩
  obtain ⟨hdrains, hremaining⟩ := @Calm.assigned _ _ q i s [.assign mutation (.preserveFailed error)] none none h hrequested hsparing
    (by simp [QueueEffect.assigns]) (fun job => .preserveFailure job (.drain queue attempted)) 6 (fun _ => rfl)
    (fun r _ => Nat.add_le_add_right (hle r).1 _) fun _ _ _ _ hkeeps => ⟨hkeeps queue hholds, Nat.le_refl _⟩
  refine ⟨hdrains, Nat.le_trans hremaining (Nat.add_le_add_right (Nat.mul_le_mul_left 16 ?_) 6)⟩
  exact List.sum_le_sum fun r _ => (hle r).2

/-- The copy is projected. -/
theorem Calm.enqueueApplied (h : q.Calm i) (hrequested : (q.engine i).drainRequested = false) (hsparing : q.Sparing i none)
    (hholds : (q.engine i).Holds queue) {command : CommandRef} (hactive : ((q.engine i).command command).isActiveMutation = true)
    (operation : String) (outcome : Projection) :
    ((q.runStretch i 0 ((q.engine i).enqueueApplied operation command (.preserveConflict mutation (.drain queue attempted))
        outcome)).settle i s).Drains i ∧
      ((q.runStretch i 0 ((q.engine i).enqueueApplied operation command (.preserveConflict mutation (.drain queue attempted))
        outcome)).settle i s).remaining i ≤ 16 * q.total ItemSyncCommand.cost i + 7 := by
  have hassigned : ∀ (xs : List QueueEffect) (error : Option String), (∀ x ∈ xs, x.assigns = true) →
      (∀ r, (((q.engine i).exec xs).command r).attemptsLeft ≤ ((q.engine i).command r).attemptsLeft ∧
        (((q.engine i).exec xs).command r).cost ≤ ((q.engine i).command r).cost) →
      ((q.runStretch i 0 ((q.engine i).andThen xs (Engine.persistThen fun job =>
          .enqueueSettle operation job error (.preserveConflict mutation (.drain queue attempted))))).settle i s).Drains i ∧
        ((q.runStretch i 0 ((q.engine i).andThen xs (Engine.persistThen fun job =>
          .enqueueSettle operation job error (.preserveConflict mutation (.drain queue attempted))))).settle i s).remaining i ≤
          16 * q.total ItemSyncCommand.cost i + 7 := by
    intro xs error hxs hle
    obtain ⟨hdrains, hremaining⟩ := @Calm.assigned _ _ q i s xs none none h hrequested hsparing hxs
      (fun job => .enqueueSettle operation job error (.preserveConflict mutation (.drain queue attempted))) 7 (fun _ => rfl)
      (fun r _ => Nat.add_le_add_right (hle r).1 _) fun _ _ _ _ hkeeps => ⟨hkeeps queue hholds, Nat.le_refl _⟩
    refine ⟨hdrains, Nat.le_trans hremaining (Nat.add_le_add_right (Nat.mul_le_mul_left 16 ?_) 7)⟩
    exact List.sum_le_sum fun r _ => (hle r).2
  have hone : ∀ (a : Assignment) r, (((q.engine i).command command).assign a).attemptsLeft ≤ ((q.engine i).command command).attemptsLeft ∧
      (((q.engine i).command command).assign a).cost ≤ ((q.engine i).command command).cost →
      (((q.engine i).exec [.assign command a]).command r).attemptsLeft ≤ ((q.engine i).command r).attemptsLeft ∧
        (((q.engine i).exec [.assign command a]).command r).cost ≤ ((q.engine i).command r).cost := by
    intro a r ha
    by_cases hr : r = command
    · subst hr
      rw [show ((q.engine i).exec [.assign r a]).command r = _ from Engine.command_assign_self]
      exact ha
    · rw [show ((q.engine i).exec [.assign command a]).command r = _ from Engine.command_assign_of_ne hr]
      exact ⟨Nat.le_refl _, Nat.le_refl _⟩
  cases outcome with
  | failed error =>
    refine hassigned [.assign command (.failed error)] (some error) (by simp [QueueEffect.assigns]) fun r => hone _ r ?_
    exact ItemSyncCommand.cost_le_of (ItemSyncCommand.isEdit_assign _ _) fun hactive => by cases hactive
  | applied =>
    refine hassigned [.assign command .applied] none (by simp [QueueEffect.assigns]) fun r => hone _ r ?_
    exact ItemSyncCommand.cost_assign_le (fun _ => hactive) rfl nofun
  | conflicted =>
    refine hassigned [.assign command .projectedConflict, .assign command .applied] none (by simp [QueueEffect.assigns]) fun r => ?_
    by_cases hr : r = command
    · -- The conflict of the projection is overwritten.
      subst hr
      have hvalue : ((q.engine i).exec [.assign r .projectedConflict, .assign r .applied]).command r =
          (((q.engine i).command r).assign .projectedConflict).assign .applied := by
        rw [Engine.exec_cons, Engine.exec_cons, Engine.exec_nil, Engine.command_assign_self, Engine.command_assign_self]
      rw [hvalue]
      exact ItemSyncCommand.cost_le_of ((ItemSyncCommand.isEdit_assign _ _).trans (ItemSyncCommand.isEdit_assign _ _)) fun _ =>
        ⟨hactive, Nat.le_refl _⟩
    · have hvalue : ((q.engine i).exec [.assign command .projectedConflict, .assign command .applied]).command r = (q.engine i).command r := by
        rw [Engine.exec_cons, Engine.exec_cons, Engine.exec_nil, Engine.command_assign_of_ne hr, Engine.command_assign_of_ne hr]
      rw [hvalue]
      exact ⟨Nat.le_refl _, Nat.le_refl _⟩

/-- What came for a conflict: nothing, an error, or a copy. -/
theorem Calm.preserved (h : q.Calm i) (hrequested : (q.engine i).drainRequested = false) (hsparing : q.Sparing i none)
    (hholds : (q.engine i).Holds queue) (hm : mutation ∈ (q.engine i).commands) (s' : Surroundings) (hcall : s'.call = 0)
    (result : Except String (Option ItemSyncCommand)) (hcopy : ∀ copy, result = .ok (some copy) →
      ((q.engine i).command mutation).isEdit = true ∧ copy.isEdit = false) :
    ((q.runStretch i 0 ((q.engine i).preserved s' mutation (.drain queue attempted) result)).settle i s).Drains i ∧
      ((q.runStretch i 0 ((q.engine i).preserved s' mutation (.drain queue attempted) result)).settle i s).remaining i ≤
        16 * q.total ItemSyncCommand.cost i + (9 + ((q.engine i).command mutation).credit) := by
  cases result with
  | error error =>
    obtain ⟨hdrains, hremaining⟩ := @Calm.preserveFailed _ _ q i s queue attempted mutation h hrequested hsparing hholds error
    exact ⟨hdrains, Nat.le_trans hremaining (by omega)⟩
  | ok copy =>
    cases copy with
    | none =>
      obtain ⟨hdrains, hremaining⟩ := @Calm.drainLoop _ _ q i s queue attempted h hrequested hsparing hholds s'
      exact ⟨hdrains, Nat.le_trans hremaining (by omega)⟩
    | some copy =>
      obtain ⟨hedit, hcopies⟩ := hcopy copy rfl
      simp only [Engine.preserved, Engine.enqueue]
      split
      · obtain ⟨hdrains, hremaining⟩ := @Calm.noteThenLoop _ _ q i s queue attempted h hrequested hsparing hholds
          (.found copy.operation) rfl s'
        exact ⟨hdrains, Nat.le_trans hremaining (by omega)⟩
      · next hnew =>
        rw [hcall]
        obtain ⟨hdrains, hremaining⟩ := @Calm.pushes _ _ q i s queue mutation attempted h hrequested hsparing hholds hm
          (Engine.enqueueing copy) hcopies (Bool.eq_false_iff.mpr hnew) copy.operation
        refine ⟨hdrains, Nat.le_trans hremaining ?_⟩
        rw [ItemSyncCommand.credit, if_pos hedit]
        omega

/-- **A step of a drain** keeps the invariant, and takes something of what remains. -/
theorem Drains.answer (h : q.Drains i) {answer : QueueAnswer} {now : Nat} {suffix copyId : String}
    (hcopies : q.copies i (.answer answer now suffix copyId) = true) (hq : q.drainStep i (.answer answer now suffix copyId) = some q') :
    q'.Drains i ∧ q'.remaining i < q.remaining i := by
  obtain ⟨w, hw, hmap⟩ := Option.bind_eq_some_iff.mp hq
  obtain ⟨stretch, hresume, rfl⟩ := Option.map_eq_some_iff.mp hmap
  have hrequested := h.requested (by rw [hw]; exact Option.some_ne_none w)
  have hsparing := h.sparing
  have hawaits := h.awaits w hw
  have hremaining : q.remaining i = 16 * q.total ItemSyncCommand.cost i + (q.engine i).phase w := by rw [remaining, hw, Option.elim_some]
  rw [hw, Option.bind_some] at hsparing
  rw [hremaining]
  have hless : ∀ {q' : QueueState ι} {n : Nat}, q'.Drains i ∧ q'.remaining i ≤ 16 * q.total ItemSyncCommand.cost i + n →
      n < (q.engine i).phase w → q'.Drains i ∧ q'.remaining i < 16 * q.total ItemSyncCommand.cost i + (q.engine i).phase w :=
    fun h hn => ⟨h.1, Nat.lt_of_le_of_lt h.2 (Nat.add_lt_add_left hn _)⟩
  have hends : ∀ {q' : QueueState ι}, q'.Drains i ∧ q'.remaining i + 5 ≤ 16 * q.total ItemSyncCommand.cost i →
      q'.Drains i ∧ q'.remaining i < 16 * q.total ItemSyncCommand.cost i + (q.engine i).phase w := fun h => ⟨h.1, by omega⟩
  have hcalm := h.calm
  cases w with
  | getClient queue first =>
    cases answer with
    | client result =>
      obtain rfl := Option.some.inj hresume
      exact hless (hcalm.clientAnswered hrequested hsparing hawaits.1 hawaits.2 _ result) (by simp [Engine.phase])
    | _ => cases hresume
  | clientFailure job =>
    cases answer with
    | written =>
      obtain rfl := Option.some.inj hresume
      obtain ⟨hdrains, hends⟩ := hcalm.endPass hrequested hsparing now
      exact @hless _ 0 ⟨hdrains, Nat.le_of_eq hends⟩ (by simp [Engine.phase])
    | _ => cases hresume
  | request queue attempted index mutation =>
    cases answer with
    | response result =>
      obtain rfl := Option.some.inj hresume
      exact hless (hcalm.requestAnswered hrequested hsparing hawaits.1 hawaits.2.1 hawaits.2.2 _ result) (by simp [Engine.phase])
    | _ => cases hresume
  | rewriteIds queue attempted index mutation version job =>
    cases answer with
    | written =>
      obtain rfl := Option.some.inj hresume
      obtain ⟨hdrains, hwaits⟩ := hcalm.waits (w := .acknowledge queue attempted index mutation version) hrequested hsparing hawaits
      exact hless ⟨hdrains, Nat.le_of_eq hwaits⟩ (by simp [Engine.phase])
    | _ => cases hresume
  | acknowledge queue attempted index mutation version =>
    cases answer with
    | acknowledged result =>
      obtain rfl := Option.some.inj hresume
      cases result with
      | ok => exact hends (hcalm.acknowledges hrequested hsparing hawaits.1 hawaits.2.1 hawaits.2.2 index version)
      | error error => exact hends (hcalm.attemptFailed hrequested hsparing hawaits.1 hawaits.2.1 hawaits.2.2 _ error)
    | _ => cases hresume
  | acknowledgeWrite queue attempted job =>
    cases answer with
    | written =>
      obtain rfl := Option.some.inj hresume
      simp only [Engine.acknowledgeWritten]
      split
      · next mutation hconflicted =>
        obtain ⟨hdrains, hwaits⟩ := hcalm.waits (w := .preserveConflict mutation (.drain queue attempted)) hrequested hsparing
          ⟨hawaits.1, hawaits.2 mutation hconflicted⟩
        refine hless ⟨hdrains, Nat.le_of_eq hwaits⟩ ?_
        simp only [Engine.phase, hconflicted, Option.elim_some]
        omega
      · exact hless (hcalm.drainLoop hrequested hsparing hawaits.1 _) (by simp only [Engine.phase]; omega)
    | _ => cases hresume
  | currentItem queue attempted mutation =>
    cases answer with
    | current result =>
      obtain rfl := Option.some.inj hresume
      cases result with
      | ok version =>
        obtain ⟨hdrains, hwaits⟩ := hcalm.waits (w := .reconcile queue attempted mutation version) hrequested hsparing hawaits
        exact hless ⟨hdrains, Nat.le_of_eq hwaits⟩ (by simp [Engine.phase])
      | error error => exact hends (hcalm.refuses hrequested hsparing hawaits.1 hawaits.2.1 hawaits.2.2 rfl)
    | _ => cases hresume
  | reconcile queue attempted mutation version =>
    cases answer with
    | reconciled result =>
      obtain rfl := Option.some.inj hresume
      exact hends (hcalm.refuses hrequested hsparing hawaits.1 hawaits.2.1 hawaits.2.2 (by cases result <;> rfl))
    | _ => cases hresume
  | refusedWrite queue attempted mutation job =>
    cases answer with
    | written =>
      obtain rfl := Option.some.inj hresume
      simp only [Engine.afterRefusal]
      split
      · next hstatus =>
        obtain ⟨hdrains, hwaits⟩ := hcalm.waits (w := .preserveConflict mutation (.drain queue attempted)) hrequested hsparing hawaits
        refine hless ⟨hdrains, Nat.le_of_eq hwaits⟩ ?_
        simp only [Engine.phase, hstatus, if_true]
        omega
      · exact hless (hcalm.drainLoop hrequested hsparing hawaits.1 _) (by simp only [Engine.phase]; omega)
    | _ => cases hresume
  | retryWrite queue attempted job =>
    cases answer with
    | written =>
      obtain rfl := Option.some.inj hresume
      exact hless (hcalm.drainLoop hrequested hsparing hawaits _) (by simp [Engine.phase])
    | _ => cases hresume
  | preserveConflict mutation after =>
    cases after with
    | restore => exact hawaits.elim
    | drain queue attempted =>
      cases answer with
      | copy result =>
        obtain rfl := Option.some.inj hresume
        refine hless (hcalm.preserved hrequested hsparing hawaits.1 hawaits.2 _ rfl result fun copy hcopy => ?_)
          (by simp only [Engine.phase]; omega)
        subst hcopy
        simp only [copies, hw, Bool.and_eq_true, decide_eq_true_eq] at hcopies
        exact ⟨hcopies.1, by simp [ItemSyncCommand.isEdit, hcopies.2]⟩
      | _ => cases hresume
  | preserveFailure job after =>
    cases after with
    | restore => exact hawaits.elim
    | drain queue attempted =>
      cases answer with
      | written =>
        obtain rfl := Option.some.inj hresume
        exact hless (hcalm.drainLoop hrequested hsparing hawaits _) (by simp [Engine.phase])
      | _ => cases hresume
  | enqueueWrite operation job caller =>
    cases caller with
    | user => exact hawaits.elim
    | preserveConflict mutation after =>
      cases after with
      | restore => exact hawaits.elim
      | drain queue attempted =>
        cases answer with
        | written =>
          obtain rfl := Option.some.inj hresume
          simp only [Engine.enqueueWritten]
          split
          · exact hless (hcalm.noteThenLoop hrequested hsparing hawaits _ rfl _) (by simp [Engine.phase])
          · next command hfind =>
            split
            · exact hless (hcalm.noteThenLoop hrequested hsparing hawaits _ rfl _) (by simp [Engine.phase])
            · next hstatus =>
              have hactive : ((q.engine i).command command).isActiveMutation = true := by
                unfold ItemSyncCommand.isActiveMutation
                cases hc : ((q.engine i).command command).status with
                | none => rfl
                | some status => cases status <;> simp_all
              obtain ⟨hdrains, hwaits⟩ := hcalm.waits (w := .enqueueApply operation command (.preserveConflict mutation (.drain queue attempted)))
                hrequested hsparing ⟨hawaits, hactive⟩
              exact hless ⟨hdrains, Nat.le_of_eq hwaits⟩ (by simp [Engine.phase])
        | _ => cases hresume
  | enqueueApply operation command caller =>
    cases caller with
    | user => exact hawaits.elim
    | preserveConflict mutation after =>
      cases after with
      | restore => exact hawaits.elim
      | drain queue attempted =>
        cases answer with
        | projection outcome =>
          obtain rfl := Option.some.inj hresume
          exact hless (hcalm.enqueueApplied hrequested hsparing hawaits.1 hawaits.2 operation outcome) (by simp [Engine.phase])
        | _ => cases hresume
  | enqueueSettle operation job error caller =>
    cases caller with
    | user => exact hawaits.elim
    | preserveConflict mutation after =>
      cases after with
      | restore => exact hawaits.elim
      | drain queue attempted =>
        cases answer with
        | written =>
          obtain rfl := Option.some.inj hresume
          cases error with
          | none => exact hless (hcalm.noteThenLoop hrequested hsparing hawaits _ rfl _) (by simp [Engine.phase])
          | some error => exact hless (hcalm.preserveFailed hrequested hsparing hawaits error) (by simp [Engine.phase])
        | _ => cases hresume
  | stageWrite | claimWrite | activateApply | activateSettle | cancelWrite | clearWrite | restoreTail | restoreGet | restoreLoad
  | restoreApply | restoreWrite => exact hawaits.elim

/-- A drain begins. -/
theorem Drains.drain (h : q.Drains i) {now : Nat} (hq : q.drainStep i (.drain now) = some q') : q'.Drains i := by
  simp only [drainStep] at hq
  split at hq
  · next hnone =>
    obtain rfl := Option.some.inj hq
    have hcall : (q.engine i).call 0 = none := by simpa using hnone
    have hsparing := h.sparing
    rw [hcall, Option.bind_none] at hsparing
    have hdraining := h.draining hcall
    have hbegins : ∀ (xs : List QueueEffect) (await : Option EngineAwait),
        (q.engine i).exec xs = { q.engine i with draining := await.isSome, drainRequested := false } → (∀ w, await = some w → w.mutation = none ∧ (q.engine i).Awaits w) →
        (xs.foldl (applyEffect i) q).log = q.log →
        ((q.runStretch i 0 ⟨xs, await⟩).settle i ⟨0, now, "", ""⟩).Drains i := by
      intro xs await hexec hawait hlog
      obtain ⟨hsettle, hcalm⟩ := @Calm.still _ _ q i ⟨0, now, "", ""⟩ h.calm ⟨xs, await⟩ (by rw [hexec]; rfl) (by rw [hexec])
        (by rw [hexec]) (by rw [hexec])
      have hcall' : ((q.runStretch i 0 ⟨xs, await⟩).engine i).call 0 = await := call_runStretch _
      have hengine := @runStretch_engine_self _ _ q i 0 ⟨xs, await⟩
      rw [hexec] at hengine
      rw [hsettle]
      refine ⟨hcalm, fun _ => by rw [hengine], fun hnone' => ?_, ?_, fun w hw => ?_⟩
      · rw [hcall'] at hnone'
        rw [hengine, hnone']
        rfl
      · have hnothing : (((q.runStretch i 0 ⟨xs, await⟩).engine i).call 0).bind EngineAwait.mutation = none := by
          rw [hcall']
          cases await with
          | none => rfl
          | some w => exact (hawait w rfl).1
        rw [hnothing]
        exact hsparing.of_log [] hlog (by simp) (by rw [hengine]; rfl) (by rw [hengine])
      · rw [hcall'] at hw
        subst hw
        rw [hengine]
        exact (hawait w rfl).2
    simp only [Engine.begin, Engine.drain, hdraining, Bool.false_eq_true, if_false]
    split
    · next w hw =>
      refine hbegins _ _ rfl (fun w' hw' => ?_) rfl
      obtain rfl := Option.some.inj hw'
      obtain ⟨queue, hqueue, hmap⟩ := Option.bind_eq_some_iff.mp hw
      obtain ⟨first, hfirst, rfl⟩ := Option.map_eq_some_iff.mp hmap
      refine ⟨rfl, .inl hqueue, fun r hr => ?_⟩
      have hrunnable := List.find?_some hfirst
      simp only [Engine.isRunnable, hr, Bool.and_eq_true] at hrunnable
      exact isActiveMutation_of_isReadyMutation hrunnable.1.1
    · refine hbegins _ _ ?_ (by simp) rfl
      simp only [Engine.exec_cons, Engine.exec_nil, Engine.apply, Option.isSome_none, ← hdraining]
  · cases hq

/-- **The invariant of the drains**, in every state that they reach. -/
theorem drains (h : (loneDrains i).ReachableUnder (fun q a => q.copies i a = true) q) : q.Drains i := by
  refine h.invariant (QueueState.Drains · i) (fun q hinit => ?_) fun q a q' _ hdrains hcopies hstep => ?_
  · obtain ⟨hsound, hsynced, hjobs, hcall, hdraining, hlog⟩ := hinit
    refine ⟨⟨hsound, hsynced, hjobs⟩, fun hsome => absurd hcall hsome, fun _ => hdraining, ⟨fun operation => ?_, fun r hr => ?_⟩,
      fun w hw => ?_⟩
    · rw [hlog]
      exact Nat.zero_le _
    · rw [hlog]
      exact Nat.le_trans (Nat.le_of_eq (Nat.zero_add _)) (Nat.le_trans ItemSyncCommand.attemptsLeft_le (Nat.le_add_right _ _))
    · rw [hcall] at hw
      cases hw
  · cases a with
    | drain now => exact hdrains.drain hstep
    | answer answer now suffix copyId => exact (hdrains.answer hcopies hstep).1

/-! ## Drains are runs of the queue -/

/-- A write that goes through is a run of `persist` steps. -/
theorem run_settle (document : List ItemSyncCommand) (s : Surroundings) (h : (q.engine i).jobs = [] ∨ (∃ id, (q.engine i).jobs = [⟨id, .write⟩]) ∨
    ∃ id mutation version, (q.engine i).jobs = [⟨id, .acknowledge mutation version⟩]) :
    ∃ n, (outboundQueue ι document).run q (List.replicate n (.persist i s)) = some (q.settle i s) := by
  rcases h with h | ⟨id, h⟩ | ⟨id, mutation, version, h⟩
  · exact ⟨0, by rw [settle_of_nil h]; rfl⟩
  · have hsettle : q.settle i s = q.writeQueue i := by
      unfold settle
      rw [h]
    rw [hsettle]
    exact run_writeQueue h s
  · obtain ⟨next, xs, conflicted, -, hengine, -⟩ := @updateAcknowledged_eq _ _ q i s mutation version id []
    have hjobs : ((q.updateAcknowledged i mutation version s id []).engine i).jobs = [⟨id, .acknowledged next conflicted⟩] := by rw [hengine]
    refine ⟨2, ?_⟩
    rw [settle_of_acknowledge h hjobs]
    simp [System.run, outboundQueue, QueueState.step, QueueState.persist, h, hjobs]

/-- A stretch of a drain leaves one write at most. -/
theorem jobs_plain {stretch : Stretch} (hnil : (q.engine i).jobs = []) (h : (q.engine i).Plain stretch) :
    ((q.runStretch i 0 stretch).engine i).jobs = [] ∨ ∃ id, ((q.runStretch i 0 stretch).engine i).jobs = [⟨id, .write⟩] := by
  rw [runStretch_engine_self]
  rcases h.exec.2 with hjobs | ⟨hjobs, -⟩
  · exact .inl (hjobs.trans hnil)
  · exact .inr ⟨_, by rw [hjobs, hnil]; rfl⟩

/-- **The drains are runs of the engine's steps.** -/
theorem run_drainStep {document : List ItemSyncCommand} {a : DrainLabel} (h : q.Drains i) (hq : q.drainStep i a = some q') :
    ∃ as, (outboundQueue ι document).run q as = some q' := by
  have hnil := h.calm.jobs
  cases a with
  | drain now =>
    simp only [drainStep] at hq
    split at hq
    · next hnone =>
      obtain rfl := Option.some.inj hq
      obtain ⟨n, hn⟩ := run_settle document ⟨0, now, "", ""⟩
        ((jobs_plain (q := q) (i := i) hnil (Engine.plain_drain now)).imp id .inl)
      refine ⟨.call i .drain ⟨0, now, "", ""⟩ :: List.replicate n (.persist i ⟨0, now, "", ""⟩), ?_⟩
      rw [System.run, show (outboundQueue ι document).step q (.call i .drain ⟨0, now, "", ""⟩) =
        some (q.runStretch i 0 ((q.engine i).begin ⟨0, now, "", ""⟩ .drain)) from if_pos hnone]
      exact hn
    · cases hq
  | answer answer now suffix copyId =>
    obtain ⟨w, hw, hmap⟩ := Option.bind_eq_some_iff.mp hq
    obtain ⟨stretch, hresume, rfl⟩ := Option.map_eq_some_iff.mp hmap
    have hawaits := h.awaits w hw
    have hjobs : ((q.runStretch i 0 stretch).engine i).jobs = [] ∨ (∃ id, ((q.runStretch i 0 stretch).engine i).jobs = [⟨id, .write⟩]) ∨
        ∃ id mutation version, ((q.runStretch i 0 stretch).engine i).jobs = [⟨id, .acknowledge mutation version⟩] := by
      have hnoted : ∀ event rest, (q.engine i).Plain rest →
          ((q.runStretch i 0 (Engine.Then (.note event) rest)).engine i).jobs = [] ∨
            ∃ id, ((q.runStretch i 0 (Engine.Then (.note event) rest)).engine i).jobs = [⟨id, .write⟩] := by
        intro event rest hrest
        have := jobs_plain (q := q) (i := i) hnil hrest
        rw [runStretch_engine_self] at this ⊢
        exact this
      cases Engine.resumes_of_resume hresume with
      | plain hplain => exact (jobs_plain hnil hplain).imp_right .inl
      | enqueued hrest | settled hrest => exact (hnoted _ _ hrest).imp_right .inl
      | copyFound _ hrest => exact (hnoted _ _ hrest).imp_right .inl
      | @copyPushed mutation after copy =>
        refine .inr (.inl ⟨((q.engine i).push (Engine.enqueueing copy)).nextJob, ?_⟩)
        rw [runStretch_engine_self]
        simp only [Engine.pushing, Engine.exec_cons, Engine.exec_nil, Engine.apply, Engine.schedule, Engine.push_jobs, hnil, List.nil_append]
      | @acknowledged queue attempted index mutation version =>
        refine .inr (.inr ⟨(q.engine i).nextJob, mutation, version, ?_⟩)
        rw [runStretch_engine_self]
        simp only [Engine.exec_cons, Engine.exec_nil, Engine.apply, Engine.schedule, Engine.setArray, hnil, List.nil_append]
      | staged | restored | loaded => exact hawaits.elim
    obtain ⟨n, hn⟩ := run_settle document ⟨0, now, suffix, copyId⟩ hjobs
    refine ⟨.resume i answer ⟨0, now, suffix, copyId⟩ :: List.replicate n (.persist i ⟨0, now, suffix, copyId⟩), ?_⟩
    have hfinished : w.job.all (q.engine i).finished = true := by
      cases w.job <;> simp [Engine.finished, hnil]
    have hstep : (outboundQueue ι document).step q (.resume i answer ⟨0, now, suffix, copyId⟩) = some (q.runStretch i 0 stretch) := by
      simp only [outboundQueue, QueueState.step, hw, hfinished, if_true, hresume, Option.map_some]
    rw [System.run, hstep]
    exact hn

/-- **A run of drains is a run of the engine**, which takes their steps one at a time. -/
theorem run_of_loneDrains {document : List ItemSyncCommand} {as : List DrainLabel}
    (h : (loneDrains i).ReachableUnder (fun q a => q.copies i a = true) q)
    (hrun : (loneDrains i).runUnder (fun q a => q.copies i a = true) q as = some q') :
    ∃ bs, (outboundQueue ι document).run q bs = some q' := by
  induction as generalizing q with
  | nil => exact ⟨[], hrun⟩
  | cons a as ih =>
    simp only [System.runUnder] at hrun
    split at hrun
    · next hcopies =>
      obtain ⟨m, hm, hrest⟩ := Option.bind_eq_some_iff.mp hrun
      obtain ⟨bs, hbs⟩ := run_drainStep (drains h) hm
      obtain ⟨cs, hcs⟩ := ih (h.step a hcopies hm) hrest
      exact ⟨bs ++ cs, System.run_trans hbs hcs⟩
    · cases hrun

/-! ## Every drain ends -/

/-- A drain never waits for what cannot come. -/
theorem Drains.goes_on (h : q.Drains i) {w : EngineAwait} (hw : (q.engine i).call 0 = some w) :
    ∃ answer, ∀ now suffix copyId, (q.drainStep i (.answer answer now suffix copyId)).isSome = true := by
  have hawaits := h.awaits w hw
  have hstep : ∀ answer, (∀ s, ((q.engine i).resume s q.document w answer).isSome = true) →
      ∃ answer, ∀ now suffix copyId, (q.drainStep i (.answer answer now suffix copyId)).isSome = true :=
    fun answer hanswer => ⟨answer, fun now suffix copyId => by rw [drainStep, hw, Option.bind_some, Option.isSome_map]; exact hanswer _⟩
  cases w with
  | getClient => exact hstep (.client (.ok ())) fun _ => rfl
  | request => exact hstep (.response (.ok (none, none))) fun _ => rfl
  | acknowledge => exact hstep (.acknowledged (.ok ())) fun _ => rfl
  | currentItem => exact hstep (.current (.ok none)) fun _ => rfl
  | reconcile => exact hstep (.reconciled (.ok ())) fun _ => rfl
  | preserveConflict => exact hstep (.copy (.ok none)) fun _ => rfl
  | enqueueApply => exact hstep (.projection .applied) fun _ => rfl
  | clientFailure | rewriteIds | acknowledgeWrite | refusedWrite | retryWrite | preserveFailure | enqueueWrite | enqueueSettle =>
    exact hstep .written fun _ => rfl
  | stageWrite | claimWrite | activateApply | activateSettle | cancelWrite | clearWrite | restoreTail | restoreGet | restoreLoad
  | restoreApply | restoreWrite => exact hawaits.elim

/-- The answers that a drain gets, one after another, each take something of what remains. -/
theorem Drains.answers {as : List DrainLabel} (h : q.Drains i) (has : ∀ a ∈ as, a.isAnswer = true)
    (hq : (loneDrains i).runUnder (fun q a => q.copies i a = true) q as = some q') : as.length ≤ q.remaining i := by
  induction as generalizing q with
  | nil => exact Nat.zero_le _
  | cons a as ih =>
    simp only [System.runUnder] at hq
    split at hq
    · next hcopies =>
      obtain ⟨m, hm, hrest⟩ := Option.bind_eq_some_iff.mp hq
      cases a with
      | drain now => exact absurd (has _ List.mem_cons_self) (by simp [DrainLabel.isAnswer])
      | answer answer now suffix copyId =>
        obtain ⟨hdrains, hless⟩ := h.answer hcopies hm
        have := ih hdrains (fun a ha => has a (List.mem_cons_of_mem _ ha)) hrest
        rw [List.length_cons]
        omega
    · cases hq

/-- **A drain ends, and sends nothing too often.** -/
theorem drain_ends (h : (loneDrains i).ReachableUnder (fun q a => q.copies i a = true) q) :
    (∀ as q', (∀ a ∈ as, DrainLabel.isAnswer a = true) →
        (loneDrains i).runUnder (fun q a => q.copies i a = true) q as = some q' → as.length ≤ q.remaining i) ∧
      ((q.engine i).call 0 ≠ none → ∃ answer, ∀ now suffix copyId, (q.drainStep i (.answer answer now suffix copyId)).isSome = true) ∧
      ∀ operation, requests operation q.log ≤ MAX_RETRY_COUNT := by
  have hdrains := drains h
  refine ⟨fun as q' has hq => hdrains.answers has hq, fun hsome => ?_, hdrains.sparing.requests⟩
  obtain ⟨w, hw⟩ := Option.ne_none_iff_exists'.mp hsome
  exact hdrains.goes_on hw

/-- An edit that is in the queue of a restored engine. -/
def queuedEdit : ItemSyncCommand :=
  ⟨"account", "operation", some "operation", some "operation", .update, "item", "vault", none, none, none, none,
    some ⟨"data", "iv", "aes-gcm", 1, "user"⟩, none, 1, 1, 0, some .pending, none, none, none, none, none⟩

def restoredEngine : QueueState Unit := ⟨[queuedEdit], fun _ => newEngine.load [queuedEdit], [], []⟩

theorem run_of_loneDrains_restored : ∃ q bs, (outboundQueue Unit []).run restoredEngine bs = some q ∧
    (q.engine ()).call 0 = some (.currentItem 0 [] ⟨0, "operation"⟩) := by
  have hinit : (loneDrains ()).init restoredEngine :=
    ⟨⟨by decide, fun _ => Engine.allocated_newEngine.apply (x := .load [queuedEdit])⟩, ⟨rfl, rfl⟩, rfl, rfl, rfl, rfl⟩
  have hq : ((loneDrains ()).runUnder (fun q a => q.copies () a = true) restoredEngine
      [.drain 0, .answer (.client (.ok ())) 0 "" "", .answer (.response (.error .conflict)) 0 "" ""]).map (fun q =>
        (q.engine ()).call 0) = some (some (.currentItem 0 [] ⟨0, "operation"⟩)) := by decide +kernel
  obtain ⟨q, hrun, hcall⟩ := Option.map_eq_some_iff.mp hq
  obtain ⟨bs, hbs⟩ := @run_of_loneDrains Unit _ _ _ _ [] _ (.init hinit) hrun
  exact ⟨q, bs, hbs, hcall⟩

/-- A drain whose request is answered by a conflict. -/
theorem drain_ends_conflict : ∃ q : QueueState Unit,
    (q.engine ()).call 0 = some (.currentItem 0 [] ⟨0, "operation"⟩) ∧ ∀ as q', (∀ a ∈ as, DrainLabel.isAnswer a = true) →
      (loneDrains ()).runUnder (fun q a => q.copies () a = true) q as = some q' → as.length ≤ 180 := by
  have hinit : (loneDrains ()).init restoredEngine := by
    refine ⟨⟨by decide, fun _ => ?_⟩, ⟨rfl, rfl⟩, rfl, rfl, rfl, rfl⟩
    exact Engine.allocated_newEngine.apply (x := .load [queuedEdit])
  have hq : ((loneDrains ()).runUnder (fun q a => q.copies () a = true) restoredEngine
      [.drain 0, .answer (.client (.ok ())) 0 "" "", .answer (.response (.error .conflict)) 0 "" ""]).map (fun q =>
        ((q.engine ()).call 0, q.remaining ())) = some (some (.currentItem 0 [] ⟨0, "operation"⟩), 180) := by decide +kernel
  obtain ⟨q, hrun, hvalues⟩ := Option.map_eq_some_iff.mp hq
  obtain ⟨hcall, hremaining⟩ := Prod.mk.inj hvalues
  refine ⟨q, hcall, fun as q' has hrun' => ?_⟩
  have := (drain_ends (System.ReachableUnder.runUnder (.init hinit) hrun)).1 as q' has hrun'
  rwa [hremaining] at this

end QueueState

end Bittery
