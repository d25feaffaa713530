/-
A generation from the moment its staging begins to its promotion, with any operations of the cache in between.

What is staged of it by then is arbitrary. The other operations leave its baseline as it is, and
never make it the active generation: so the promotion merges what was active at the beginning,
what is active at the end and what is staged.
-/
import Bittery.Client.ItemCacheMerge

namespace Bittery.ItemCache

open Lib

variable {Text : Type} [DecidableEq Text] (F : CacheFormat Text)

/-! ## Operations -/

/-- An operation of the cache. -/
inductive CacheOp
  | setCachedItems (items : List CachedEncryptedItem)
  | upsertCachedItem (item : CachedEncryptedItem)
  | removeCachedItem (itemId : String)
  | setCachedVaults (vaults : List CachedVaultMetadata)
  | upsertCachedVault (vault : CachedVaultMetadata)
  | removeCachedVault (vaultId : String)
  | setItemCacheMetadata (metadata : ItemCacheMetadata)
  | clearItemCache
  | beginStagedGeneration (generation : String)
  | stageItem (generation : String) (item : CachedEncryptedItem)
  | stageItems (generation : String) (batch : List CachedEncryptedItem)
  | stageVault (generation : String) (vault : CachedVaultMetadata)
  | stageVaults (generation : String) (batch : List CachedVaultMetadata)
  | promote (generation : String) (lastFullSyncAt cacheVersion : Nat) (syncBaseline : Option (String × Option String))
  | discard (generation : String)

/-- The staged generation that it is an operation of. -/
def CacheOp.generation : CacheOp → Option String
  | .beginStagedGeneration generation | .stageItem generation _ | .stageItems generation _ | .stageVault generation _
  | .stageVaults generation _ | .promote generation _ _ _ | .discard generation => some generation
  | _ => none

def CacheOp.program : CacheOp → CacheM Text Unit
  | .setCachedItems items => ItemCache.setCachedItems F items
  | .upsertCachedItem item => Functor.discard (ItemCache.upsertCachedItem F item)
  | .removeCachedItem itemId => ItemCache.removeCachedItem F itemId
  | .setCachedVaults vaults => ItemCache.setCachedVaults F vaults
  | .upsertCachedVault vault => ItemCache.upsertCachedVault F vault
  | .removeCachedVault vaultId => ItemCache.removeCachedVault F vaultId
  | .setItemCacheMetadata metadata => ItemCache.setItemCacheMetadata F metadata
  | .clearItemCache => ItemCache.clearItemCache F
  | .beginStagedGeneration generation => ItemCache.beginStagedGeneration F generation
  | .stageItem generation item => Functor.discard (ItemCache.stageItem F generation item)
  | .stageItems generation batch => ItemCache.stageItems F generation batch
  | .stageVault generation vault => ItemCache.stageVault F generation vault
  | .stageVaults generation batch => ItemCache.stageVaults F generation batch
  | .promote generation lastFullSyncAt cacheVersion syncBaseline =>
    ItemCache.promote F generation lastFullSyncAt cacheVersion syncBaseline
  | .discard generation => ItemCache.discard generation

/-- The operations one after the other. One that is rejected leaves what it has written. -/
def perform (ops : List CacheOp) (s : RecordStore Text) : RecordStore Text :=
  ops.foldl (fun s op => ((op.program F).eval RecordStore.exec s).1) s

/-- The items that a read of the cache lists. -/
def activeItems (s : RecordStore Text) : Records Text := s.records (itemCollectionFor (storedState F s).activeGeneration)

def activeVaults (s : RecordStore Text) : Records Text := s.records (vaultCollectionFor (storedState F s).activeGeneration)

/-! ## What the operations leave alone -/

/-- A generation that is being staged, and the records that were active when that began. -/
structure Pending (generation : String) (items vaults : Records Text) (s : RecordStore Text) : Prop where
  items : s.records (.stagedItemBaseline generation) = items
  vaults : s.records (.stagedVaultBaseline generation) = vaults
  inactive : (storedState F s).activeGeneration ≠ some generation
  writable : s.settled generation = false

/-- Neither the baseline of the generation nor the state record. -/
def Outside (generation : String) (c : Collection) : Prop :=
  c ≠ .stagedItemBaseline generation ∧ c ≠ .stagedVaultBaseline generation ∧ c ≠ .state

/-- A command that keeps the generation pending. -/
def Spares (generation : String) : RecordCommand Text → Prop
  | .put c record => Outside generation c ∨
    c = .state ∧ ∃ state, record = ⟨META_RECORD_ID, F.stringifyState state⟩ ∧ state.activeGeneration ≠ some generation
  | .putMany c _ | .delete c _ => Outside generation c
  | .clear c => Outside generation c ∨ c = .state
  | .settle other => other ≠ generation
  | .get _ _ | .list _ | .isSettled _ => True

omit [DecidableEq Text] in
/-- A state record that is written is read as it was, or as the one of a cold cache. -/
theorem activeGeneration_written (state : ItemCacheStateDocument) :
    (parseState F (some (F.stringifyState state))).activeGeneration = none ∨
      (parseState F (some (F.stringifyState state))).activeGeneration = state.activeGeneration := by
  unfold parseState
  rw [Option.bind_some, F.parseState_stringifyState]
  dsimp only
  split
  · exact .inl rfl
  · split
    · exact .inl rfl
    · exact .inr rfl

omit [DecidableEq Text] in
theorem Pending.setRecords {generation : String} {items vaults : Records Text} {s : RecordStore Text} {c : Collection}
    (h : Pending F generation items vaults s) (hc : Outside generation c) (records : Records Text) :
    Pending F generation items vaults (s.setRecords c records) := by
  obtain ⟨hitems, hvaults, hstate⟩ := hc
  refine ⟨?_, ?_, ?_, h.writable⟩
  · rw [RecordStore.setRecords_of_ne s hitems.symm, h.items]
  · rw [RecordStore.setRecords_of_ne s hvaults.symm, h.vaults]
  · unfold storedState
    rw [RecordStore.setRecords_of_ne s hstate.symm]
    exact h.inactive

omit [DecidableEq Text] in
theorem Pending.setState {generation : String} {items vaults : Records Text} {s : RecordStore Text} {records : Records Text}
    (h : Pending F generation items vaults s)
    (hrecords : (parseState F (records.value META_RECORD_ID)).activeGeneration ≠ some generation) :
    Pending F generation items vaults (s.setRecords .state records) := by
  refine ⟨?_, ?_, ?_, h.writable⟩
  · rw [RecordStore.setRecords_of_ne s (fun h => by cases h), h.items]
  · rw [RecordStore.setRecords_of_ne s (fun h => by cases h), h.vaults]
  · unfold storedState
    rw [RecordStore.setRecords_self]
    exact hrecords

omit [DecidableEq Text] in
theorem pending_exec {generation : String} {items vaults : Records Text} (s : RecordStore Text) (c : RecordCommand Text)
    (hc : Spares F generation c) (h : Pending F generation items vaults s) :
    Pending F generation items vaults (RecordStore.exec s c).1 := by
  cases c with
  | put c record =>
    rcases hc with hc | ⟨rfl, state, rfl, hstate⟩
    · exact h.setRecords F hc _
    · refine h.setState F ?_
      rw [List.foldl_cons, List.foldl_nil, value_put, if_pos rfl]
      rcases activeGeneration_written F state with hnone | hsame
      · rw [hnone]
        exact fun h => by cases h
      · rw [hsame]
        exact hstate
  | putMany c records => exact h.setRecords F hc _
  | delete c id => exact h.setRecords F hc _
  | clear c =>
    rcases hc with hc | rfl
    · exact h.setRecords F hc _
    · exact h.setState F fun h => by cases h
  | settle other => exact ⟨h.items, h.vaults, h.inactive, (Function.update_of_ne hc.symm _ _).trans h.writable⟩
  | get c id => exact h
  | list c => exact h
  | isSettled other => exact h

/-! ### Program by program -/

section Programs

variable {generation : String}

/-- A state record that is read does not name the generation. -/
def Unnamed (generation : String) : (c : RecordCommand Text) → c.Response → Prop
  | .get .state id, raw => id = META_RECORD_ID → (parseState F raw).activeGeneration ≠ some generation
  | _, _ => True

omit [DecidableEq Text] in
/-- A program that goes on with the state record it has read. -/
theorem usesWhen_readState {α : Type} {P : RecordCommand Text → Prop} {f : ItemCacheStateDocument → CacheM Text α}
    (hread : P (.get .state META_RECORD_ID))
    (hf : ∀ state, state.activeGeneration ≠ some generation → (f state).UsesWhen (Unnamed F generation) P) :
    ((readState F).bind f).UsesWhen (Unnamed F generation) P :=
  ⟨hread, fun raw hraw => hf (parseState F raw) (hraw rfl), trivial⟩

theorem outside_itemCollectionFor (active : Option String) : Outside generation (itemCollectionFor active) := by
  rcases itemCollectionFor_cases active with h | ⟨g, h⟩ <;> rw [h] <;>
    exact ⟨(fun h => by cases h), (fun h => by cases h), fun h => by cases h⟩

theorem outside_vaultCollectionFor (active : Option String) : Outside generation (vaultCollectionFor active) := by
  rcases vaultCollectionFor_cases active with h | ⟨g, h⟩ <;> rw [h] <;>
    exact ⟨(fun h => by cases h), (fun h => by cases h), fun h => by cases h⟩

theorem outside_stagedItems (other : String) : Outside generation (.stagedItems other) :=
  ⟨(fun h => by cases h), (fun h => by cases h), fun h => by cases h⟩

theorem outside_stagedVaults (other : String) : Outside generation (.stagedVaults other) :=
  ⟨(fun h => by cases h), (fun h => by cases h), fun h => by cases h⟩

theorem outside_stagedItemBaseline {other : String} (h : other ≠ generation) :
    Outside generation (.stagedItemBaseline other) :=
  ⟨fun he => h (Collection.stagedItemBaseline.inj he), (fun h => by cases h), fun h => by cases h⟩

theorem outside_stagedVaultBaseline {other : String} (h : other ≠ generation) :
    Outside generation (.stagedVaultBaseline other) :=
  ⟨(fun h => by cases h), fun he => h (Collection.stagedVaultBaseline.inj he), fun h => by cases h⟩

omit [DecidableEq Text] in
theorem uses_recordList {P : RecordCommand Text → Prop} {c : Collection} (h : P (.list c)) :
    (recordList c : CacheM Text _).Uses P := Async.uses_await h

omit [DecidableEq Text] in
theorem uses_valuesOf {P : RecordCommand Text → Prop} {c : Collection} (h : P (.list c)) :
    (valuesOf c : CacheM Text _).Uses P := (uses_recordList h).bind fun _ => Async.uses_ret _

omit [DecidableEq Text] in
theorem uses_recordDelete {c : Collection} (hc : Outside generation c) (id : String) :
    (recordDelete c id : CacheM Text _).Uses (Spares F generation) := Async.uses_await hc

omit [DecidableEq Text] in
theorem uses_recordPutMany {c : Collection} (hc : Outside generation c) (records : List (StoredRecord Text)) :
    (recordPutMany c records).Uses (Spares F generation) := Async.uses_await hc

omit [DecidableEq Text] in
theorem uses_recordPut {c : Collection} (hc : Outside generation c) (id : String) (value : Text) :
    (recordPut c id value).Uses (Spares F generation) := Async.uses_await (.inl hc)

omit [DecidableEq Text] in
theorem uses_writeState {state : ItemCacheStateDocument} (h : state.activeGeneration ≠ some generation) :
    (writeState F state).Uses (Spares F generation) := Async.uses_await (.inr ⟨rfl, state, rfl, h⟩)

omit [DecidableEq Text] in
theorem uses_promiseAll {P : RecordCommand Text → Prop} {l : List Collection} (h : ∀ c ∈ l, P (.clear c)) :
    (promiseAll (l.map recordClear) : CacheM Text Unit).Uses P := by
  induction l with
  | nil => exact Async.uses_ret _
  | cons c l ih =>
    have hone : (recordClear c : CacheM Text Unit).Uses P := Async.uses_await (h c List.mem_cons_self)
    refine ((hone.bind fun _ => Async.uses_ret _).orElse (Async.uses_ret _)).bind fun failed =>
      (ih fun d hd => h d (List.mem_cons_of_mem c hd)).bind fun _ => ?_
    split
    · exact Async.uses_throw
    · exact Async.uses_ret _

omit [DecidableEq Text] in
theorem uses_clears {l : List Collection} (h : ∀ c ∈ l, Outside generation c ∨ c = .state) :
    (promiseAll (l.map recordClear) : CacheM Text Unit).Uses (Spares F generation) := uses_promiseAll h

omit [DecidableEq Text] in
/-- A loop that deletes some of the records it goes through. -/
theorem uses_forM_delete {P : RecordCommand Text → Prop} {c : Collection} (h : ∀ id, P (.delete c id))
    (p : StoredRecord Text → Bool) (records : List (StoredRecord Text)) :
    (records.forM fun record => do if p record then recordDelete c record.id : CacheM Text PUnit).Uses P := by
  refine Async.Uses.forM fun record _ => ?_
  split
  · exact Async.uses_await (h record.id)
  · exact Async.uses_ret _

omit [DecidableEq Text] in
theorem uses_writeNewerItem {c : Collection} (hc : Outside generation c) (item : CachedEncryptedItem) :
    (writeNewerItem F c item).Uses (Spares F generation) := by
  refine Async.Uses.bind (Async.uses_await trivial) fun stored => ?_
  split
  · exact Async.uses_ret _
  · exact (uses_recordPut F hc _ _).bind fun _ => Async.uses_ret _

omit [DecidableEq Text] in
theorem uses_writeNewerItems {c : Collection} (hc : Outside generation c) (items : List CachedEncryptedItem) :
    (writeNewerItems F c items).Uses (Spares F generation) := by
  unfold writeNewerItems
  split
  · exact Async.uses_ret _
  · exact (uses_valuesOf trivial).bind fun _ => uses_recordPutMany F hc _

omit [DecidableEq Text] in
theorem uses_assertPending (other : String) : (assertPending other : CacheM Text Unit).Uses (Spares F generation) := by
  refine Async.Uses.bind (Async.uses_await trivial) fun settled => ?_
  split
  · exact Async.uses_throw
  · exact Async.uses_ret _

omit [DecidableEq Text] in
theorem usesWhen_prime (which : Primed) : (prime F which).UsesWhen (Unnamed F generation) (Spares F generation) := by
  refine usesWhen_readState F trivial fun state hstate => Async.Uses.when ?_
  cases which with
  | items =>
    dsimp only
    split
    · exact Async.uses_ret _
    · exact uses_writeState F hstate
  | vaults =>
    dsimp only
    split
    · exact Async.uses_ret _
    · exact uses_writeState F hstate

omit [DecidableEq Text] in
theorem uses_replaceCollection {c : Collection} (hc : Outside generation c) (records : List (StoredRecord Text)) :
    (replaceCollection c records).Uses (Spares F generation) :=
  (Async.uses_await (.inl hc)).bind fun _ => uses_recordPutMany F hc records

omit [DecidableEq Text] in
theorem uses_settle {other : String} (hother : other ≠ generation) :
    (settle other : CacheM Text Unit).Uses (Spares F generation) := Async.uses_await hother

omit [DecidableEq Text] in
theorem uses_clearBaselines {other : String} (hother : other ≠ generation) :
    (promiseAll [recordClear (.stagedItemBaseline other), recordClear (.stagedVaultBaseline other)] :
      CacheM Text Unit).Uses (Spares F generation) :=
  uses_clears F (l := [.stagedItemBaseline other, .stagedVaultBaseline other]) fun c hc => by
    rcases List.mem_cons.mp hc with rfl | hc
    · exact .inl (outside_stagedItemBaseline hother)
    · rw [List.mem_singleton.mp hc]
      exact .inl (outside_stagedVaultBaseline hother)

theorem usesWhen_promoteLocked {other : String} (hother : other ≠ generation) (lastFullSyncAt cacheVersion : Nat)
    (syncBaseline : Option (String × Option String)) :
    (promoteLocked F other lastFullSyncAt cacheVersion syncBaseline).UsesWhen (Unnamed F generation) (Spares F generation) := by
  refine usesWhen_readState F trivial fun previous _ => Async.Uses.when ?_
  refine (uses_valuesOf trivial).bind fun itemBaselineValues => (uses_recordList trivial).bind fun previousItemRecords =>
    (uses_valuesOf trivial).bind fun stagedItemValues => (uses_forM_delete (fun _ => outside_stagedItems other) _ _).bind fun _ =>
    (uses_recordPutMany F (outside_stagedItems other) _).bind fun _ =>
    (uses_valuesOf trivial).bind fun vaultBaselineValues => (uses_recordList trivial).bind fun previousVaultRecords =>
    (uses_forM_delete (fun _ => outside_stagedVaults other) _ _).bind fun _ =>
    (uses_forM_delete (fun _ => outside_stagedItems other) _ _).bind fun _ =>
    (uses_recordPutMany F (outside_stagedVaults other) _).bind fun _ =>
    (uses_writeState F fun h => hother (Option.some.inj h)).bind fun _ =>
    (uses_settle F hother).bind fun _ => ?_
  dsimp only
  split
  · refine (uses_clears F (l := [itemCollectionFor previous.activeGeneration, vaultCollectionFor previous.activeGeneration])
      fun c hc => .inl ?_).bind fun _ => uses_clearBaselines F hother
    rcases List.mem_cons.mp hc with rfl | hc
    · exact outside_itemCollectionFor _
    · rw [List.mem_singleton.mp hc]
      exact outside_vaultCollectionFor _
  · exact uses_clearBaselines F hother

omit [DecidableEq Text] in
theorem uses_clearStaged {other : String} (hother : other ≠ generation) :
    (promiseAll [recordClear (.stagedItems other), recordClear (.stagedVaults other),
      recordClear (.stagedItemBaseline other), recordClear (.stagedVaultBaseline other)] :
      CacheM Text Unit).Uses (Spares F generation) :=
  uses_clears F (l := [.stagedItems other, .stagedVaults other, .stagedItemBaseline other, .stagedVaultBaseline other])
    fun c hc => by
      simp only [List.mem_cons, List.not_mem_nil, or_false] at hc
      rcases hc with rfl | rfl | rfl | rfl
      · exact .inl (outside_stagedItems other)
      · exact .inl (outside_stagedVaults other)
      · exact .inl (outside_stagedItemBaseline hother)
      · exact .inl (outside_stagedVaultBaseline hother)

/-- **No other operation** touches a pending generation, or makes it the active one. -/
theorem usesWhen_program (op : CacheOp) (hop : op.generation ≠ some generation) :
    (op.program F).UsesWhen (Unnamed F generation) (Spares F generation) := by
  have hother : ∀ {other : String}, some other ≠ some generation → other ≠ generation := fun h he => h (congrArg some he)
  cases op with
  | setCachedItems records =>
    refine usesWhen_readState F trivial fun state _ => Async.UsesWhen.bind ?_ fun _ => usesWhen_prime F .items
    exact Async.Uses.when (uses_replaceCollection F (outside_itemCollectionFor _) _)
  | upsertCachedItem item =>
    refine Async.UsesWhen.bind (usesWhen_readState F trivial fun state _ => Async.Uses.when ?_) fun _ => trivial
    exact uses_writeNewerItem F (outside_itemCollectionFor _) item
  | removeCachedItem itemId =>
    exact usesWhen_readState F trivial fun state _ => Async.Uses.when (uses_recordDelete F (outside_itemCollectionFor _) itemId)
  | setCachedVaults records =>
    refine usesWhen_readState F trivial fun state _ => Async.UsesWhen.bind ?_ fun _ => usesWhen_prime F .vaults
    exact Async.Uses.when (uses_replaceCollection F (outside_vaultCollectionFor _) _)
  | upsertCachedVault vault =>
    exact usesWhen_readState F trivial fun state _ => Async.Uses.when (uses_recordPut F (outside_vaultCollectionFor _) _ _)
  | removeCachedVault vaultId =>
    refine usesWhen_readState F trivial fun state _ => Async.Uses.when ?_
    exact (uses_recordDelete F (outside_vaultCollectionFor _) vaultId).bind fun _ => (uses_recordList trivial).bind fun records =>
      uses_forM_delete (fun _ => outside_itemCollectionFor _) _ records
  | setItemCacheMetadata metadata =>
    exact usesWhen_readState F trivial fun state hstate => Async.Uses.when (uses_writeState F hstate)
  | clearItemCache =>
    refine usesWhen_readState F trivial fun state _ => Async.Uses.when ?_
    refine uses_clears F (l := [.items, .vaults, itemCollectionFor state.activeGeneration,
      vaultCollectionFor state.activeGeneration, .state]) fun c hc => ?_
    simp only [List.mem_cons, List.not_mem_nil, or_false] at hc
    rcases hc with rfl | rfl | rfl | rfl | rfl
    · exact .inl (outside_itemCollectionFor none)
    · exact .inl (outside_vaultCollectionFor none)
    · exact .inl (outside_itemCollectionFor _)
    · exact .inl (outside_vaultCollectionFor _)
    · exact .inr rfl
  | beginStagedGeneration other =>
    refine usesWhen_readState F trivial fun state _ => Async.Uses.when ?_
    exact (uses_recordList trivial).bind fun _ => (uses_recordList trivial).bind fun _ => (uses_clearStaged F (hother hop)).bind fun _ =>
      (uses_recordPutMany F (outside_stagedItemBaseline (hother hop)) _).bind fun _ =>
      uses_recordPutMany F (outside_stagedVaultBaseline (hother hop)) _
  | stageItem other item =>
    refine Async.Uses.when (Async.Uses.bind ?_ fun _ => Async.uses_ret _)
    exact (uses_assertPending F other).bind fun _ => uses_writeNewerItem F (outside_stagedItems other) item
  | stageItems other batch =>
    exact Async.Uses.when ((uses_assertPending F other).bind fun _ => uses_writeNewerItems F (outside_stagedItems other) batch)
  | stageVault other vault =>
    exact Async.Uses.when ((uses_assertPending F other).bind fun _ => uses_recordPut F (outside_stagedVaults other) _ _)
  | stageVaults other batch =>
    exact Async.Uses.when ((uses_assertPending F other).bind fun _ => uses_recordPutMany F (outside_stagedVaults other) _)
  | promote other lastFullSyncAt cacheVersion syncBaseline =>
    exact Async.UsesWhen.bind (uses_assertPending F other).when fun _ =>
      usesWhen_promoteLocked F (hother hop) lastFullSyncAt cacheVersion syncBaseline
  | discard other =>
    refine Async.Uses.when (Async.Uses.bind (Async.uses_await trivial) fun settled => ?_)
    split
    · exact Async.uses_ret _
    · exact (uses_settle F (hother hop)).bind fun _ => uses_clearStaged F (hother hop)

omit [DecidableEq Text] in
theorem unnamed_exec {items vaults : Records Text} (s : RecordStore Text) (c : RecordCommand Text)
    (hs : Pending F generation items vaults s) : ∀ x ∈ (RecordStore.exec s c).2, Unnamed F generation c x := by
  intro x hx
  cases c with
  | get collection id =>
    cases collection with
    | state =>
      cases hx
      rintro rfl
      exact hs.inactive
    | _ => trivial
  | _ => trivial

theorem pending_perform {items vaults : Records Text} {s : RecordStore Text} {ops : List CacheOp}
    (hops : ∀ op ∈ ops, op.generation ≠ some generation) (hs : Pending F generation items vaults s) :
    Pending F generation items vaults (perform F ops s) := by
  induction ops generalizing s with
  | nil => exact hs
  | cons op ops ih =>
    have hone := (usesWhen_program F op (hops op List.mem_cons_self)).eval_keeps RecordStore.exec
      (fun s c hc hs => ⟨pending_exec F s c hc hs, unnamed_exec F s c hs⟩) hs
    exact ih (fun o ho => hops o (List.mem_cons_of_mem op ho)) hone

end Programs

/-! ## The beginning -/

omit [DecidableEq Text] in
/-- A generation that is new is staged over what is active. -/
theorem pending_begin {generation : String} {s : RecordStore Text} (hwritable : s.settled generation = false)
    (hnew : (storedState F s).activeGeneration ≠ some generation) :
    Pending F generation (activeItems F s) (activeVaults F s) ((beginStagedGeneration F generation).eval RecordStore.exec s).1 := by
  have hrows : ∀ records : Records Text, records.rows.foldl Table.put .empty = records := toMap_rows
  have hbegin : (beginStagedGeneration F generation).eval RecordStore.exec s =
      (((s.clearAll [.stagedItems generation, .stagedVaults generation, .stagedItemBaseline generation,
          .stagedVaultBaseline generation]).putMany (.stagedItemBaseline generation) (activeItems F s).rows).putMany
        (.stagedVaultBaseline generation) (activeVaults F s).rows, some ()) := by
    unfold beginStagedGeneration
    rw [Async.bind_eq, Async.eval_bind RecordStore.exec (t := s) (a := storedState F s) rfl]
    rw [Async.bind_eq, Async.eval_bind RecordStore.exec (t := s) (a := (activeItems F s).rows) rfl]
    rw [Async.bind_eq, Async.eval_bind RecordStore.exec (t := s) (a := (activeVaults F s).rows) rfl]
    have hclears := eval_clears [.stagedItems generation, .stagedVaults generation, .stagedItemBaseline generation,
      .stagedVaultBaseline generation] s
    exact Async.eval_bind RecordStore.exec hclears
  rw [hbegin]
  refine ⟨?_, ?_, ?_, hwritable⟩
  · rw [RecordStore.putMany, RecordStore.setRecords_of_ne _ (fun h => by cases h), RecordStore.putMany,
      RecordStore.setRecords_self]
    refine (congrArg (fun records => (activeItems F s).rows.foldl Table.put records) (if_pos ?_)).trans (hrows _)
    simp
  · rw [RecordStore.putMany, RecordStore.setRecords_self, RecordStore.putMany,
      RecordStore.setRecords_of_ne _ (fun h => by cases h)]
    refine (congrArg (fun records => (activeVaults F s).rows.foldl Table.put records) (if_pos ?_)).trans (hrows _)
    simp
  · have hstate : ∀ t : RecordStore Text, t.records .state = s.records .state →
        (storedState F t).activeGeneration ≠ some generation := by
      intro t ht
      unfold storedState
      rw [ht]
      exact hnew
    refine hstate _ ?_
    rw [RecordStore.putMany, RecordStore.setRecords_of_ne _ (fun h => by cases h), RecordStore.putMany,
      RecordStore.setRecords_of_ne _ (fun h => by cases h)]
    simp [RecordStore.clearAll]

/-! ## The promotion -/

/-- What the staging of a generation begins with. -/
def begun (generation : String) (s : RecordStore Text) : RecordStore Text :=
  ((beginStagedGeneration F generation).eval RecordStore.exec s).1

/-- The records of a generation are staged. -/
def RecordStore.stage (generation : String) (items vaults : Records Text) (s : RecordStore Text) : RecordStore Text :=
  (s.setRecords (.stagedItems generation) items).setRecords (.stagedVaults generation) vaults

/-- The store after the promotion. -/
def promoted (generation : String) (lastFullSyncAt cacheVersion : Nat) (syncBaseline : Option (String × Option String))
    (s : RecordStore Text) : RecordStore Text :=
  ((promote F generation lastFullSyncAt cacheVersion syncBaseline).eval RecordStore.exec s).1

/-- The id was in the active generation after one of the operations, or before all of them. -/
def Held (ops : List CacheOp) (s : RecordStore Text) (id : String) : Prop :=
  ∃ done, done <+: ops ∧ ((activeItems F (perform F done s)).value id).isSome = true

/-- **What is active after the promotion**, id by id. -/
theorem activeItems_promoted {generation : String} (hname : generation ≠ "") {items vaults : Records Text}
    {s : RecordStore Text} (hs : Pending F generation items vaults s) (staged stagedVaults : Records Text)
    (lastFullSyncAt cacheVersion : Nat) (syncBaseline : Option (String × Option String)) (id : String) :
    (activeItems F (promoted F generation lastFullSyncAt cacheVersion syncBaseline
        (s.stage generation staged stagedVaults))).value id =
      mergeItem F (deletedVaultIds vaults (activeVaults F s)) (items.value id) ((activeItems F s).value id) (staged.value id) := by
  have hstage : Pending F generation items vaults (s.stage generation staged stagedVaults) :=
    (hs.setRecords F (outside_stagedItems generation) staged).setRecords F (outside_stagedVaults generation) stagedVaults
  have hstate : storedState F (s.stage generation staged stagedVaults) = storedState F s := rfl
  have hitems : itemCollectionFor (storedState F s).activeGeneration ≠ .stagedItems generation := by
    unfold itemCollectionFor
    cases hactive : (storedState F s).activeGeneration with
    | none => exact fun h => by cases h
    | some g =>
      dsimp only
      split
      · exact fun h => by cases h
      · exact fun h => hs.inactive (hactive.trans (congrArg some (Collection.stagedItems.inj h)))
  have hvaults : vaultCollectionFor (storedState F s).activeGeneration ≠ .stagedVaults generation := by
    unfold vaultCollectionFor
    cases hactive : (storedState F s).activeGeneration with
    | none => exact fun h => by cases h
    | some g =>
      dsimp only
      split
      · exact fun h => by cases h
      · exact fun h => hs.inactive (hactive.trans (congrArg some (Collection.stagedVaults.inj h)))
  obtain ⟨t, ht, hmerged, metadata, hwritten⟩ := eval_promoteLocked F (s := s.stage generation staged stagedVaults)
    lastFullSyncAt cacheVersion syncBaseline (hstate ▸ hitems)
  have hpromoted : promoted F generation lastFullSyncAt cacheVersion syncBaseline (s.stage generation staged stagedVaults) = t := by
    have hassert : (assertPending generation : CacheM Text Unit).eval RecordStore.exec (s.stage generation staged stagedVaults) =
        (s.stage generation staged stagedVaults, some ()) := by
      have hanswer : (isSettled generation : CacheM Text Bool).eval RecordStore.exec (s.stage generation staged stagedVaults) =
          (s.stage generation staged stagedVaults, some false) := by
        rw [← hstage.writable]
        rfl
      exact Async.eval_bind RecordStore.exec hanswer
    unfold promoted promote
    rw [Async.bind_eq, Async.eval_bind RecordStore.exec hassert, ht]
  have hread : (storedState F t).activeGeneration = some generation := by
    unfold storedState
    rw [hwritten]
    unfold parseState
    rw [Option.bind_some, F.parseState_stringifyState]
    simp [ItemCacheStateDocument.toPartial, nativeViewFor, ITEM_CACHE_STATE_VERSION]
  have hactive : ∀ c, c ≠ .stagedItems generation → c ≠ .stagedVaults generation →
      (s.stage generation staged stagedVaults).records c = s.records c := by
    intro c hc hc'
    unfold RecordStore.stage
    rw [RecordStore.setRecords_of_ne _ hc', RecordStore.setRecords_of_ne _ hc]
  rw [hpromoted]
  unfold activeItems
  rw [hread]
  have hname' : itemCollectionFor (some generation) = .stagedItems generation := if_neg hname
  rw [hname', hmerged, mergedItems_value, hstate, hstage.items, hstage.vaults]
  have hsource : (s.stage generation staged stagedVaults).records (itemCollectionFor (storedState F s).activeGeneration) =
      s.records (itemCollectionFor (storedState F s).activeGeneration) := by
    refine hactive _ hitems ?_
    rcases itemCollectionFor_cases (storedState F s).activeGeneration with h | ⟨g, h⟩ <;> rw [h] <;>
      exact fun h => by cases h
  have hsourceVaults : (s.stage generation staged stagedVaults).records
      (vaultCollectionFor (storedState F s).activeGeneration) =
      s.records (vaultCollectionFor (storedState F s).activeGeneration) := by
    refine hactive _ ?_ hvaults
    rcases vaultCollectionFor_cases (storedState F s).activeGeneration with h | ⟨g, h⟩ <;> rw [h] <;>
      exact fun h => by cases h
  have hstaged : (s.stage generation staged stagedVaults).records (.stagedItems generation) = staged := by
    unfold RecordStore.stage
    rw [RecordStore.setRecords_of_ne _ (fun h => by cases h), RecordStore.setRecords_self]
  rw [hsource, hsourceVaults, hstaged]
  rfl

/-- **The promotion is the merge it is to be exactly where** no record that was changed meanwhile is older than the
staged one, none that was added and deleted again is staged, and none that is to be kept is in a vault that was
deleted meanwhile. -/
theorem promotion_merges_iff {generation : String} {s : RecordStore Text} (hname : generation ≠ "")
    (hnew : (storedState F s).activeGeneration ≠ some generation) (hwritable : s.settled generation = false)
    (ops : List CacheOp) (hops : ∀ op ∈ ops, op.generation ≠ some generation) (staged stagedVaults : Records Text)
    (lastFullSyncAt cacheVersion : Nat) (syncBaseline : Option (String × Option String)) :
    (∀ id, Merged F (Held F ops (begun F generation s) id) ((activeItems F s).value id)
      ((activeItems F (perform F ops (begun F generation s))).value id) (staged.value id)
      ((activeItems F (promoted F generation lastFullSyncAt cacheVersion syncBaseline
        ((perform F ops (begun F generation s)).stage generation staged stagedVaults))).value id)) ↔
    ∀ id, Mergeable F
      (deletedVaultIds (activeVaults F s) (activeVaults F (perform F ops (begun F generation s))))
      (Held F ops (begun F generation s) id) ((activeItems F s).value id)
      ((activeItems F (perform F ops (begun F generation s))).value id) (staged.value id) := by
  have hpending : Pending F generation (activeItems F s) (activeVaults F s) (perform F ops (begun F generation s)) :=
    pending_perform F hops (pending_begin F hwritable hnew)
  refine forall_congr' fun id => ?_
  rw [activeItems_promoted F hname hpending]
  exact mergeItem_merged_iff F _ _ _ _ _

/-! ### A record that is overtaken -/

/-- Texts that can all be read. -/
inductive Written
  | item (item : CachedEncryptedItem)
  | vault (vault : CachedVaultMetadata)
  | state (state : ItemCacheStateDocument)
deriving DecidableEq

def exampleFormat : CacheFormat Written where
  accountId := "account"
  recordKeyPrefix := "record:"
  parseItem
    | .item item => some item
    | _ => none
  stringifyItem := .item
  parseItem_stringifyItem _ := rfl
  parseVault
    | .vault vault => some vault
    | _ => none
  stringifyVault := .vault
  parseVault_stringifyVault _ := rfl
  parseState
    | .state state => some state.toPartial
    | _ => none
  stringifyState := .state
  parseState_stringifyState _ := rfl

def exampleItem (version : Nat) : CachedEncryptedItem where
  id := "item"
  vaultId := "vault"
  category := .login
  favorite := false
  encryptedData := "data"
  encryptionIv := "iv"
  encryptionAlgorithm := "aes-gcm"
  version := version
  lastModifiedBy := "user"
  encryptionVersion := 1
  encryptedByUserId := "user"
  createdAt := 0
  updatedAt := version
  deletedAt := none

/-- The first version of one item, in a cache that has never promoted a generation. -/
def exampleStore : RecordStore Written where
  records
    | .items => Table.empty.put ⟨"item", .item (exampleItem 1)⟩
    | .vaults => Table.empty.put ⟨"vault", .vault ⟨"vault", ""⟩⟩
    | .state => Table.empty.put ⟨META_RECORD_ID, .state { coldState exampleFormat with itemsPrimed := true, vaultsPrimed := true }⟩
    | _ => .empty
  settled _ := false

/-- A version of the item is staged. -/
def exampleStaged (version : Nat) : Records Written := Table.empty.put ⟨"item", .item (exampleItem version)⟩

/-- The second version is written meanwhile. -/
def exampleWritten : RecordStore Written :=
  perform exampleFormat [.upsertCachedItem (exampleItem 2)] (begun exampleFormat "generation" exampleStore)

/-- It stays where the first one is staged, … -/
theorem promotion_merges_stale :
    Merged exampleFormat
      (Held exampleFormat [.upsertCachedItem (exampleItem 2)] (begun exampleFormat "generation" exampleStore) "item")
      ((activeItems exampleFormat exampleStore).value "item") ((activeItems exampleFormat exampleWritten).value "item")
      ((exampleStaged 1).value "item")
      ((activeItems exampleFormat (promoted exampleFormat "generation" 0 1 none
        (exampleWritten.stage "generation" (exampleStaged 1) .empty))).value "item") := by
  refine (promotion_merges_iff exampleFormat (by decide) (by decide +kernel) rfl [.upsertCachedItem (exampleItem 2)]
    (fun op hop => ?_) (exampleStaged 1) .empty 0 1 none).mpr (fun id => ?_) "item"
  · rw [List.mem_singleton.mp hop]
    exact fun h => by cases h
  · have hvaults : deletedVaultIds (activeVaults exampleFormat exampleStore)
        (activeVaults exampleFormat exampleWritten) = [] := by decide +kernel
    have hstaged : ∀ value, (exampleStaged 1).value id = some value → id = "item" ∧ value = .item (exampleItem 1) := by
      intro value h
      unfold exampleStaged at h
      rw [value_put] at h
      split at h
      · next hid => exact ⟨hid, (Option.some.inj h).symm⟩
      · cases h
    change Mergeable _ (deletedVaultIds _ (activeVaults exampleFormat exampleWritten)) _ _
      ((activeItems exampleFormat exampleWritten).value id) _
    rw [hvaults]
    refine ⟨fun item stagedItem hitem hstagedItem _ => ?_, fun _ _ hbaseline value hvalue => ?_,
      fun _ _ _ _ => List.not_mem_nil, fun _ _ _ _ _ _ => List.not_mem_nil⟩
    · obtain ⟨value, hvalue, hparse⟩ := Option.bind_eq_some_iff.mp hstagedItem
      obtain ⟨rfl, rfl⟩ := hstaged value hvalue
      have hactive : ((activeItems exampleFormat exampleWritten).value "item").bind exampleFormat.parseItem =
          some (exampleItem 2) := by decide +kernel
      rw [hactive] at hitem
      cases hitem
      cases hparse
      decide
    · obtain ⟨rfl, -⟩ := hstaged value hvalue
      cases hbaseline

/-- … and also where the third is, which is gone then. -/
theorem overtaken_item_kept :
    ¬ ∀ id, Merged exampleFormat
      (Held exampleFormat [.upsertCachedItem (exampleItem 2)] (begun exampleFormat "generation" exampleStore) id)
      ((activeItems exampleFormat exampleStore).value id) ((activeItems exampleFormat exampleWritten).value id)
      ((exampleStaged 3).value id)
      ((activeItems exampleFormat (promoted exampleFormat "generation" 0 1 none
        (exampleWritten.stage "generation" (exampleStaged 3) .empty))).value id) := by
  intro h
  obtain ⟨kept, hkept, hversion⟩ := (h "item").newest (exampleItem 2) (exampleItem 3) (by decide +kernel) (by decide +kernel)
  have hresult : ((activeItems exampleFormat (promoted exampleFormat "generation" 0 1 none
      (exampleWritten.stage "generation" (exampleStaged 3) .empty))).value "item").bind exampleFormat.parseItem =
      some (exampleItem 2) := by decide +kernel
  rw [hresult] at hkept
  obtain rfl := Option.some.inj hkept
  cases hversion

end Bittery.ItemCache
