/-
What the proofs about the outbound queue share: how a property is kept by the effects of a
stretch, one after another, and what the effects leave alone.
-/
import Bittery.Client.ItemSyncMethods

namespace Bittery

open Lib

namespace Engine

variable {e : Engine} {P : Engine → QueueEffect → Prop} {W : Engine → EngineAwait → Prop} {xs ys : List QueueEffect} {x : QueueEffect}

/-- Every effect meets `P` in the engine it is applied to. -/
def Along (P : Engine → QueueEffect → Prop) (e : Engine) : List QueueEffect → Prop
  | [] => True
  | x :: xs => P e x ∧ Along P (e.apply x) xs

@[simp] theorem along_nil : Along P e [] := trivial

@[simp] theorem along_cons : Along P e (x :: xs) ↔ P e x ∧ Along P (e.apply x) xs := Iff.rfl

@[simp] theorem exec_nil : e.exec [] = e := rfl

@[simp] theorem exec_cons : e.exec (x :: xs) = (e.apply x).exec xs := rfl

theorem exec_append : e.exec (xs ++ ys) = (e.exec xs).exec ys := List.foldl_append ..

theorem along_append : Along P e (xs ++ ys) ↔ Along P e xs ∧ Along P (e.exec xs) ys := by
  induction xs generalizing e with
  | nil => simp
  | cons x xs ih => simp [ih, and_assoc]

theorem along_map {f : CommandRef → QueueEffect} {refs : List CommandRef} (h : ∀ e r, r ∈ refs → P e (f r)) :
    Along P e (refs.map f) := by
  induction refs generalizing e with
  | nil => trivial
  | cons r refs ih => exact ⟨h e r List.mem_cons_self, ih fun e r' hr' => h e r' (List.mem_cons_of_mem r hr')⟩

/-- The effects of a stretch meet `P`, and what it waits for then meets `W`. -/
def Does (P : Engine → QueueEffect → Prop) (W : Engine → EngineAwait → Prop) (e : Engine) (stretch : Stretch) : Prop :=
  Along P e stretch.effects ∧ ∀ w, stretch.await = some w → W (e.exec stretch.effects) w

@[simp] theorem does_andThen {rest : Engine → Stretch} :
    Does P W e (e.andThen xs rest) ↔ Along P e xs ∧ Does P W (e.exec xs) (rest (e.exec xs)) := by
  simp only [Does, andThen, along_append, exec_append, and_assoc]

@[simp] theorem does_persistThen {await : Nat → EngineAwait} :
    Does P W e (e.persistThen await) ↔
      P e .persist ∧ W (e.apply .persist) (await e.nextJob) := by
  simp [Does, persistThen]

@[simp] theorem does_mk {await : Option EngineAwait} :
    Does P W e ⟨xs, await⟩ ↔ Along P e xs ∧ ∀ w, await = some w → W (e.exec xs) w := Iff.rfl

/-! ## Objects and arrays -/

variable {c : ItemSyncCommand} {cs : List ItemSyncCommand} {r : CommandRef} {a : QueueRef} {l : List CommandRef}

theorem command_new_of_ne (h : r ≠ (e.new c).2) : (e.new c).1.command r = e.command r := Function.update_of_ne h ..

@[simp] theorem command_new_self : (e.new c).1.command (e.new c).2 = c := Function.update_self ..

@[simp] theorem setQueue_command : (e.setQueue l).command = e.command := by
  unfold setQueue; split <;> rfl

@[simp] theorem adoptReconciledQueue_command : (e.adoptReconciledQueue l).command = e.command := by
  unfold adoptReconciledQueue
  split
  · rfl
  · rfl
  · exact setQueue_command

@[simp] theorem adoptReconciledQueue_nextObject : (e.adoptReconciledQueue l).nextObject = e.nextObject := by
  unfold adoptReconciledQueue setQueue
  split
  · rfl
  · rfl
  · split <;> rfl

@[simp] theorem adoptReconciledQueue_draining : (e.adoptReconciledQueue l).draining = e.draining := by
  unfold adoptReconciledQueue setQueue
  split
  · rfl
  · rfl
  · split <;> rfl

@[simp] theorem adoptReconciledQueue_call : (e.adoptReconciledQueue l).call = e.call := by
  unfold adoptReconciledQueue setQueue
  split
  · rfl
  · rfl
  · split <;> rfl

/-- What the copies leave as it is: all but the objects. -/
theorem allocate_frame : (e.allocate cs).1.array = e.array ∧ (e.allocate cs).1.queue = e.queue ∧
    (e.allocate cs).1.persisted = e.persisted ∧ (e.allocate cs).1.jobs = e.jobs ∧ (e.allocate cs).1.call = e.call := by
  induction cs generalizing e with
  | nil => exact ⟨rfl, rfl, rfl, rfl, rfl⟩
  | cons c cs ih => exact @ih (e.new c).1

theorem allocate_draining : (e.allocate cs).1.draining = e.draining ∧ (e.allocate cs).1.drainRequested = e.drainRequested := by
  induction cs generalizing e with
  | nil => exact ⟨rfl, rfl⟩
  | cons c cs ih => exact @ih (e.new c).1

@[simp] theorem allocate_call : (e.allocate cs).1.call = e.call := allocate_frame.2.2.2.2

theorem nextObject_le_allocate : e.nextObject ≤ (e.allocate cs).1.nextObject := by
  induction cs generalizing e with
  | nil => exact Nat.le_refl _
  | cons c cs ih => exact Nat.le_trans (Nat.le_succ _) (@ih (e.new c).1)

/-- Objects that exist stay as they are. -/
theorem command_allocate_of_lt (h : r.object < e.nextObject) : (e.allocate cs).1.command r = e.command r := by
  induction cs generalizing e with
  | nil => rfl
  | cons c cs ih =>
    rw [allocate, @ih (e.new c).1 (Nat.lt_succ_of_lt h), command_new_of_ne]
    rintro rfl
    exact absurd h (Nat.lt_irrefl _)

/-- **The copies have the values of what they are copies of.** -/
theorem map_command_allocate : (e.allocate cs).2.map (e.allocate cs).1.command = cs := by
  induction cs generalizing e with
  | nil => rfl
  | cons c cs ih =>
    simp only [allocate, List.map_cons, ih]
    rw [command_allocate_of_lt (Nat.lt_succ_self _), command_new_self]

/-- An object of the engine or a copy. -/
theorem command_allocate : (e.allocate cs).1.command r = e.command r ∨ (e.allocate cs).1.command r ∈ cs := by
  induction cs generalizing e with
  | nil => exact .inl rfl
  | cons c cs ih =>
    rcases @ih (e.new c).1 with h | h
    · by_cases hr : r = (e.new c).2
      · subst hr
        exact .inr (by rw [allocate, h, command_new_self]; exact List.mem_cons_self)
      · exact .inl (by rw [allocate, h, command_new_of_ne hr])
    · exact .inr (List.mem_cons_of_mem _ h)

theorem command_push : (e.push c).command r = e.command r ∨ (e.push c).command r = c := by
  rw [push, setQueue_command]
  by_cases hr : r = (e.new c).2
  · exact .inr (hr ▸ command_new_self)
  · exact .inl (command_new_of_ne hr)

theorem command_load : (e.load cs).command r = e.command r ∨ ∃ c ∈ cs, (e.load cs).command r = c.normalizeMutation := by
  unfold load
  split
  · exact .inl rfl
  · rcases @command_allocate e (cs.map ItemSyncCommand.normalizeMutation) r with h | h
    · exact .inl h
    · obtain ⟨c, hc, h⟩ := List.mem_map.mp h
      exact .inr ⟨c, hc, h.symm⟩

theorem object_lt_allocate (hr : r ∈ (e.allocate cs).2) : r.object < (e.allocate cs).1.nextObject := by
  induction cs generalizing e with
  | nil => cases hr
  | cons c cs ih =>
    rcases List.mem_cons.mp hr with rfl | hr
    · exact Nat.lt_of_lt_of_le (Nat.lt_succ_self _) (@nextObject_le_allocate (e.new c).1 cs)
    · exact @ih (e.new c).1 hr

theorem operations_allocate (e : Engine) (document : List ItemSyncCommand) :
    (e.allocate document).2.map CommandRef.operation = document.map ItemSyncCommand.operation := by
  conv_rhs => rw [← @map_command_allocate e document]
  rw [List.map_map]
  exact List.map_congr_left fun r _ => ((e.allocate document).1.operation_command r).symm

theorem operations_commands (e : Engine) (refs : List CommandRef) :
    (refs.map e.command).map ItemSyncCommand.operation = refs.map CommandRef.operation := by
  rw [List.map_map]
  exact List.map_congr_left fun r _ => e.operation_command r

theorem mem_document_allocate {e : Engine} {document : List ItemSyncCommand} {r : CommandRef}
    (hr : r ∈ (e.allocate document).2) : (e.allocate document).1.command r ∈ document := by
  have hmap := List.mem_map_of_mem (f := (e.allocate document).1.command) hr
  rwa [map_command_allocate] at hmap

theorem eq_of_find? {known : List ItemSyncCommand} {k d : ItemSyncCommand} {operation : String}
    (hnodup : (known.map ItemSyncCommand.operation).Nodup) (h : known.find? (fun c => c.operation = operation) = some k)
    (hd : d ∈ known) (hop : d.operation = operation) : d = k := by
  have hk : k.operation = operation := by simpa using List.find?_some h
  exact List.inj_on_of_nodup_map hnodup hd (List.mem_of_find?_eq_some h) (hop.trans hk.symm)

/-- The copies of other operations' commands. -/
theorem map_filter_allocate (operation : String) :
    ((e.allocate cs).2.filter fun r => r.operation ≠ operation).map (e.allocate cs).1.command =
      cs.filter fun c => c.operation ≠ operation := by
  conv_rhs => rw [← @map_command_allocate e cs]
  rw [List.filter_map]
  congr 2
  funext r
  simp [operation_command]

theorem map_chainedCommand (entityId : String) :
    (e.chainedCommand l entityId).map e.command =
      (l.map e.command).find? fun c => c.entityId = entityId && c.isActiveMutation := by
  rw [chainedCommand, List.find?_map]
  rfl

@[simp] theorem command_assign_self {a : Assignment} : (e.apply (.assign r a)).command r = (e.command r).assign a :=
  Function.update_self ..

theorem command_assign_of_ne {r' : CommandRef} {a : Assignment} (h : r ≠ r') :
    (e.apply (.assign r' a)).command r = e.command r := Function.update_of_ne h ..

/-- The effects leave the calls alone. -/
@[simp] theorem apply_call {x : QueueEffect} : (e.apply x).call = e.call := by
  cases x <;> simp only [apply, setCommand, setArray, schedule, push, load, setQueue, newArray, new]
  · split <;> rfl
  · split
    · rfl
    · exact allocate_call

@[simp] theorem exec_call : (e.exec xs).call = e.call := by
  induction xs generalizing e with
  | nil => rfl
  | cons x xs ih => rw [exec_cons, ih, apply_call]

/-! ## Which operations are where -/

variable {operation : String}

/-- Whether an operation is in the queue. -/
def hasOperation (e : Engine) (operation : String) : Bool := hasKey CommandRef.operation operation e.commands

/-- Whether the engine remembers an operation as stored. -/
def remembers (e : Engine) (operation : String) : Bool := hasKey ItemSyncCommand.operation operation e.persisted

theorem hasKey_map_command : hasKey ItemSyncCommand.operation operation (l.map e.command) =
    hasKey CommandRef.operation operation l := by
  simp [hasKey, List.any_map, Function.comp_def, operation_command]

theorem hasKey_allocate : hasKey CommandRef.operation operation (e.allocate cs).2 =
    hasKey ItemSyncCommand.operation operation cs := by
  rw [← @hasKey_map_command (e.allocate cs).1, map_command_allocate]

theorem hasKey_sortByTimestamp : hasKey CommandRef.operation operation (e.sortByTimestamp l) =
    hasKey CommandRef.operation operation l := hasKey_perm (List.perm_insertionSort ..)

@[simp] theorem commands_setQueue : (e.setQueue l).commands = l := by
  unfold setQueue commands
  split
  · next a ha => simp [setArray, ha]
  · simp [newArray]

theorem hasOperation_push : (e.push c).hasOperation operation = (e.hasOperation operation || decide (c.operation = operation)) := by
  rw [hasOperation, push, commands_setQueue, hasKey_sortByTimestamp, hasKey_append]
  simp [hasOperation, hasKey, new]

@[simp] theorem commands_adoptReconciledQueue : (e.adoptReconciledQueue l).commands = l := by
  unfold adoptReconciledQueue
  split
  · next hqueue => simp [commands, hqueue]
  · simp [commands, setArray]
  · exact commands_setQueue

theorem load_of_ne_nil (h : cs ≠ []) : (e.load cs).hasOperation operation = hasKey ItemSyncCommand.operation operation cs ∧
    (e.load cs).remembers operation = hasKey ItemSyncCommand.operation operation cs := by
  rw [load, if_neg h]
  refine ⟨?_, rfl⟩
  simp only [hasOperation, commands, newArray, Option.elim_some, Function.update_self, hasKey_sortByTimestamp, hasKey_allocate]
  rw [hasKey, List.any_map]
  rfl

/-- **The operations of the document after a write.** -/
theorem hasKey_mergeQueue {desired current : List CommandRef} {known : List ItemSyncCommand} :
    hasKey CommandRef.operation operation (e.mergeQueue desired current known).entries =
      (hasKey CommandRef.operation operation current &&
          (!hasKey ItemSyncCommand.operation operation known || hasKey CommandRef.operation operation desired) ||
        hasKey CommandRef.operation operation desired && !hasKey ItemSyncCommand.operation operation known) := by
  simp only [mergeQueue, hasKey_sortByTimestamp, hasKey_merge]

end Engine

namespace QueueState

variable {ι : Type} [DecidableEq ι] {q : QueueState ι} {i : ι} {xs : List QueueEffect} {P : Engine → QueueEffect → Prop}

@[simp] theorem setEngine_self (e : Engine) : (q.setEngine i e).engine i = e := Function.update_self ..

theorem setEngine_of_ne {j : ι} (h : j ≠ i) (e : Engine) : (q.setEngine i e).engine j = q.engine j :=
  Function.update_of_ne h ..

@[simp] theorem setEngine_document (e : Engine) : (q.setEngine i e).document = q.document := rfl

@[simp] theorem setEngine_log (e : Engine) : (q.setEngine i e).log = q.log := rfl

omit [DecidableEq ι] in
@[simp] theorem store_document (document : List ItemSyncCommand) : (q.store document).document = document := rfl

omit [DecidableEq ι] in
@[simp] theorem store_engine (document : List ItemSyncCommand) : (q.store document).engine = q.engine := rfl

omit [DecidableEq ι] in
@[simp] theorem store_log (document : List ItemSyncCommand) : (q.store document).log = q.log := rfl

@[simp] theorem setEngine_setEngine (e e' : Engine) : (q.setEngine i e).setEngine i e' = q.setEngine i e' := by
  simp [setEngine]

@[simp] theorem applyEffect_engine_self (x : QueueEffect) : (q.applyEffect i x).engine i = (q.engine i).apply x :=
  Function.update_self ..

theorem effects_engine_self : (xs.foldl (applyEffect i) q).engine i = (q.engine i).exec xs := by
  induction xs generalizing q with
  | nil => rfl
  | cons x xs ih => rw [List.foldl_cons, ih, applyEffect_engine_self]; rfl

theorem effects_engine_of_ne {j : ι} (h : j ≠ i) : (xs.foldl (applyEffect i) q).engine j = q.engine j := by
  induction xs generalizing q with
  | nil => rfl
  | cons x xs ih => rw [List.foldl_cons, ih]; exact setEngine_of_ne h _

/-- The engine after a stretch of one of its calls. -/
theorem runStretch_engine_self (call : Nat) (stretch : Stretch) : (q.runStretch i call stretch).engine i =
    { (q.engine i).exec stretch.effects with
      call := Function.update ((q.engine i).exec stretch.effects).call call stretch.await } := by
  rw [runStretch, setEngine_self, effects_engine_self]

theorem runStretch_engine_of_ne {j : ι} (h : j ≠ i) (call : Nat) (stretch : Stretch) :
    (q.runStretch i call stretch).engine j = q.engine j := by
  rw [runStretch, setEngine_of_ne h, effects_engine_of_ne h]

theorem effects_document : (xs.foldl (applyEffect i) q).document = q.document ∧ (xs.foldl (applyEffect i) q).left = q.left := by
  induction xs generalizing q with
  | nil => exact ⟨rfl, rfl⟩
  | cons x xs ih => exact @ih (q.applyEffect i x)

theorem mem_log_effects {event : QueueEvent} (h : event ∈ q.log) : event ∈ (xs.foldl (applyEffect i) q).log := by
  induction xs generalizing q with
  | nil => exact h
  | cons x xs ih => exact ih (List.mem_append_right _ h)

/-- **The rule for a stretch**: what every effect keeps, a stretch keeps. -/
theorem effects_keep (I : QueueState ι → Prop) (hstep : ∀ q x, I q → P (q.engine i) x → I (q.applyEffect i x)) (h : I q)
    (halong : (q.engine i).Along P xs) : I (xs.foldl (applyEffect i) q) := by
  induction xs generalizing q with
  | nil => exact h
  | cons x xs ih => exact ih (hstep q x h halong.1) (by rw [applyEffect_engine_self]; exact halong.2)

end QueueState

end Bittery
