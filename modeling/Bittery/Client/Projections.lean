/-
What is displayed of an item while the rebuilds of its projection overlap.

A rebuild reads the pending commands and the record when it starts, and writes the display
when it ends; nothing makes it notice that another was started meanwhile. So the display is
the projection of what is there when the rebuild that was started last is also the last to
end. That is what `InOrder` asks of the steps of a run, with what its callers promise and that
no write fails; the invariant follows the rebuild of each item that was started last.
-/
import Bittery.Client.AccountVaultReplica

namespace Bittery

open Lib

namespace AccountVaultReplica

variable {plaintext : CachedEncryptedItem → Option String} {s t : AccountVaultReplica}

/-- The operation of a command is not the one of a pending command for another item. -/
def SameItem (s : AccountVaultReplica) (command : ItemSyncCommand) : Prop :=
  ∀ c ∈ s.pendingCommands, c.operation = command.operation → c.entityId = command.entityId

/-- **In order**: a rebuild ends while the one of its item that was started last is this one or
still runs. -/
def EndsInOrder (s : AccountVaultReplica) (n : Nat) : ReplicaCall → Prop
  | .rebuilding itemId _ _ => s.latestRebuild itemId = n ∨ s.calls (s.latestRebuild itemId) ≠ none
  | .preserving command _ => s.SameItem command
  | .upserting _ | .acknowledging _ | .removing _ => True

/-- The steps that the display withstands: those of the calls on items, each with the data that
is promised of its command, writes that do not fail, and rebuilds that end in order. -/
def InOrder (s : AccountVaultReplica) : ReplicaLabel → Prop
  | .applyItemCommand command => command.Projectable ∧ s.SameItem command
  | .acknowledgeItemCommand command entityId _ =>
    command.Projectable ∧ s.SameItem command ∧ entityId = command.entityId
  | .preserveItemConflict _ | .upsertEncrypted _ | .removeCachedItem _ => True
  | .resume n => ∀ call, s.calls n = some call → s.EndsInOrder n call
  | .reject n => ∃ command item, s.calls n = some (.preserving command item)
  | .hydrate | .hydrateFromServer | .promote _ | .resumeHydration | .rejectHydration => False

/-! ## The fold -/

theorem applyCommandToCachedItem_ok {command : ItemSyncCommand} (h : command.Projectable)
    (base : Option CachedEncryptedItem) : ∃ projected, applyCommandToCachedItem base command = .ok projected := by
  obtain ⟨hcategory, hpayload⟩ := h
  unfold applyCommandToCachedItem
  split
  · exact ⟨_, rfl⟩
  · next hc =>
    obtain ⟨category, hcategory⟩ := Option.isSome_iff_exists.mp (hcategory hc)
    obtain ⟨payload, hpayload⟩ := Option.isSome_iff_exists.mp (hpayload (.inl hc))
    simp [hcategory, hpayload]
  · exact ⟨_, rfl⟩
  · exact ⟨_, rfl⟩
  · next hc =>
    obtain ⟨payload, hpayload⟩ := Option.isSome_iff_exists.mp (hpayload (.inr (.inl hc)))
    simp [hpayload]
  · next hc =>
    obtain ⟨payload, hpayload⟩ := Option.isSome_iff_exists.mp (hpayload (.inr (.inr hc)))
    simp [hpayload]
  · exact ⟨_, rfl⟩
  · exact ⟨_, rfl⟩
  · exact ⟨_, rfl⟩

theorem foldlM_applyCommand_ok (commands : List ItemSyncCommand) (base : Option CachedEncryptedItem)
    (h : ∀ c ∈ commands, c.Projectable) : ∃ projected, commands.foldlM applyCommandToCachedItem base = .ok projected := by
  induction commands generalizing base with
  | nil => exact ⟨base, rfl⟩
  | cons c commands ih =>
    obtain ⟨next, hnext⟩ := applyCommandToCachedItem_ok (h c (by simp)) base
    rw [List.foldlM_cons, hnext]
    exact ih next fun d hd => h d (by simp [hd])

theorem mem_commandsForItem {itemId : String} {c : ItemSyncCommand} :
    c ∈ s.commandsForItem itemId ↔ c ∈ s.pendingCommands ∧ c.entityId = itemId := by
  simp [commandsForItem]

theorem project_ok (h : ∀ c ∈ s.pendingCommands, c.Projectable) (itemId : String) :
    ∃ projected, s.project itemId = .ok projected :=
  foldlM_applyCommand_ok _ _ fun c hc => h c (mem_commandsForItem.mp hc).1

theorem project_congr {itemId : String} (hitem : t.authoritativeItems itemId = s.authoritativeItems itemId)
    (hcommands : (t.pendingCommands.filter fun c => c.entityId = itemId) =
      s.pendingCommands.filter fun c => c.entityId = itemId) : t.project itemId = s.project itemId := by
  simp only [project, commandsForItem, hitem, hcommands]

theorem filter_setCommand {command : ItemSyncCommand} (h : s.SameItem command) {itemId : String}
    (hne : itemId ≠ command.entityId) : ((s.setCommand command).pendingCommands.filter fun c => c.entityId = itemId) =
      s.pendingCommands.filter fun c => c.entityId = itemId := by
  simp only [setCommand]
  split
  · have : ∀ l : List ItemSyncCommand, (∀ c ∈ l, c ∈ s.pendingCommands) →
        ((l.map fun c => if c.operation = command.operation then command else c).filter fun c => c.entityId = itemId) =
          l.filter fun c => c.entityId = itemId := by
      intro l
      induction l with
      | nil => simp
      | cons c l ih =>
        intro hl
        have ih := ih fun d hd => hl d (by simp [hd])
        by_cases hc : c.operation = command.operation
        · have he : c.entityId = command.entityId := h c (hl c (by simp)) hc
          rw [List.map_cons, if_pos hc, List.filter_cons_of_neg (by simpa using fun h => hne h.symm),
            List.filter_cons_of_neg (by simpa [he] using fun h => hne h.symm), ih]
        · rw [List.map_cons, if_neg hc, List.filter_cons, List.filter_cons, ih]
    exact this _ fun _ hc => hc
  · rw [List.filter_append, List.filter_cons_of_neg (by simpa using fun h => hne h.symm)]
    simp

theorem filter_deleteCommand {command : ItemSyncCommand} (h : s.SameItem command) {itemId : String}
    (hne : itemId ≠ command.entityId) : ((s.deleteCommand command).pendingCommands.filter fun c => c.entityId = itemId) =
      s.pendingCommands.filter fun c => c.entityId = itemId := by
  simp only [deleteCommand, List.filter_filter]
  apply List.filter_congr
  intro c hc
  by_cases ho : c.operation = command.operation
  · have he : c.entityId = command.entityId := h c hc ho
    simpa [he, ho] using fun h => hne h.symm
  · simp [ho]

/-! ## What a step leaves alone -/

/-- The display of an item follows what is there: a call that has changed it is going to rebuild
it, or its latest rebuild runs and has read what is there, or has ended and is displayed. -/
def Follows (plaintext : CachedEncryptedItem → Option String) (s : AccountVaultReplica) (itemId : String) : Prop :=
  (∃ n call, s.calls n = some call ∧ call.settles = some itemId) ∨
  (∃ projected, s.project itemId = .ok (some projected) ∧
    s.calls (s.latestRebuild itemId) = some (.rebuilding itemId projected s.hydrationGeneration)) ∨
  (s.calls (s.latestRebuild itemId) = none ∧ s.ShowsProjection plaintext itemId)

/-- A step is not about an item. -/
structure Keeps (s t : AccountVaultReplica) (itemId : String) : Prop where
  project : t.project itemId = s.project itemId
  items : t.items itemId = s.items itemId
  latest : t.latestRebuild itemId = s.latestRebuild itemId
  generation : t.hydrationGeneration = s.hydrationGeneration
  settling : ∀ n call, s.calls n = some call → call.settles = some itemId → t.calls n = some call
  rebuild : t.calls (s.latestRebuild itemId) = s.calls (s.latestRebuild itemId)

theorem Keeps.trans {r : AccountVaultReplica} {itemId : String} (h : Keeps r s itemId) (h' : Keeps s t itemId) :
    Keeps r t itemId where
  project := h'.project.trans h.project
  items := h'.items.trans h.items
  latest := h'.latest.trans h.latest
  generation := h'.generation.trans h.generation
  settling n call hc hs := h'.settling n call (h.settling n call hc hs) hs
  rebuild := by rw [← h.latest, h'.rebuild, h.latest, h.rebuild]

theorem Follows.keeps {itemId : String} (h : Follows plaintext s itemId) (hk : Keeps s t itemId) :
    Follows plaintext t itemId := by
  unfold Follows ShowsProjection at h ⊢
  rw [hk.latest, hk.project, hk.items, hk.generation, hk.rebuild]
  rcases h with ⟨n, call, hc, hs⟩ | h
  · exact .inl ⟨n, call, hk.settling n call hc hs, hs⟩
  · exact .inr h

/-- What else holds in the runs. -/
structure Settled (s : AccountVaultReplica) : Prop where
  fresh : s.Fresh
  numbered : ∀ itemId, s.latestRebuild itemId < s.next
  hydration : s.hydration = .none
  generation : ∀ n itemId projected generation, s.calls n = some (.rebuilding itemId projected generation) →
    generation = s.hydrationGeneration
  latest : ∀ itemId call, s.calls (s.latestRebuild itemId) = some call →
    ∃ projected generation, call = .rebuilding itemId projected generation
  projectable : ∀ c ∈ s.pendingCommands, c.Projectable

namespace Settled

theorem setCommand (h : s.Settled) {command : ItemSyncCommand} (hp : command.Projectable) :
    (s.setCommand command).Settled := by
  refine ⟨h.fresh, h.numbered, h.hydration, h.generation, h.latest, ?_⟩
  intro c hc
  simp only [AccountVaultReplica.setCommand] at hc
  split at hc
  · obtain ⟨d, hd, rfl⟩ := List.mem_map.mp hc
    split
    · exact hp
    · exact h.projectable d hd
  · rcases List.mem_append.mp hc with hc | hc
    · exact h.projectable c hc
    · rw [List.mem_singleton.mp hc]; exact hp

theorem deleteCommand (h : s.Settled) (command : ItemSyncCommand) : (s.deleteCommand command).Settled :=
  ⟨h.fresh, h.numbered, h.hydration, h.generation, h.latest, fun c hc => h.projectable c (List.mem_filter.mp hc).1⟩

theorem setAuthoritative (h : s.Settled) (itemId : String) (item : Option CachedEncryptedItem) :
    (s.setAuthoritative itemId item).Settled :=
  ⟨h.fresh, h.numbered, h.hydration, h.generation, h.latest, h.projectable⟩

theorem setCached (h : s.Settled) (itemId : String) (item : Option CachedEncryptedItem) :
    (s.setCached itemId item).Settled :=
  ⟨h.fresh, h.numbered, h.hydration, h.generation, h.latest, h.projectable⟩

theorem persistItem (h : s.Settled) (item : CachedEncryptedItem) : (s.persistItem item).1.Settled :=
  ⟨h.fresh, h.numbered, h.hydration, h.generation, h.latest, h.projectable⟩

theorem await (h : s.Settled) {call : ReplicaCall}
    (hr : ∀ itemId projected generation, call = .rebuilding itemId projected generation → generation = s.hydrationGeneration) :
    (s.await call).Settled := by
  refine ⟨h.fresh.await call, fun itemId => ?_, h.hydration, fun n itemId projected generation hc => ?_,
    fun itemId c hc => ?_, h.projectable⟩
  · have := h.numbered itemId
    show s.latestRebuild itemId < s.next + 1
    omega
  · by_cases hn : n = s.next
    · rw [hn, await_calls_next] at hc
      exact hr _ _ _ (Option.some.inj hc)
    · rw [await_calls_of_ne hn] at hc
      exact h.generation n _ _ _ hc
  · have hne : s.latestRebuild itemId ≠ s.next := by have := h.numbered itemId; omega
    exact h.latest itemId c (await_calls_of_ne hne ▸ hc)

theorem release (h : s.Settled) (n : Nat) : (s.release n).Settled :=
  ⟨h.fresh.release n, h.numbered, h.hydration, fun m _ _ _ hm => h.generation m _ _ _ (calls_of_release hm).2,
    fun itemId call hm => h.latest itemId call (calls_of_release hm).2, h.projectable⟩

/-- A rebuild that starts. -/
theorem rebuild (h : s.Settled) (itemId : String) : (s.rebuildItemProjection itemId).Settled := by
  obtain ⟨projected, hproject⟩ := project_ok h.projectable itemId
  have hlatest := rebuild_latestRebuild hproject
  have hcalls : ∀ n call, (s.rebuildItemProjection itemId).calls n = some call →
      (n = s.next ∧ ∃ p, call = .rebuilding itemId p s.hydrationGeneration) ∨ (n ≠ s.next ∧ s.calls n = some call) := by
    intro n call hc
    by_cases hn : n = s.next
    · subst hn
      cases projected with
      | none => rw [rebuild_calls_none hproject, h.fresh.next] at hc; cases hc
      | some p => rw [rebuild_calls_next hproject] at hc; exact .inl ⟨rfl, p, (Option.some.inj hc).symm⟩
    · exact .inr ⟨hn, rebuild_calls_of_ne hn ▸ hc⟩
  refine ⟨h.fresh.rebuild itemId, fun id => ?_, by simpa using h.hydration, fun n id p generation hc => ?_,
    fun id call hc => ?_, by simpa using h.projectable⟩
  · have := h.numbered id
    rw [rebuild_next hproject, hlatest, Function.update_apply]
    split <;> omega
  · rw [rebuild_hydrationGeneration]
    rcases hcalls _ _ hc with ⟨-, q, hq⟩ | ⟨-, hc⟩
    · cases hq; rfl
    · exact h.generation _ _ _ _ hc
  · by_cases hid : id = itemId
    · subst hid
      rw [hlatest, Function.update_self] at hc
      rcases hcalls _ _ hc with ⟨-, q, hq⟩ | ⟨hn, -⟩
      · exact ⟨q, _, hq⟩
      · exact absurd rfl hn
    · rw [hlatest, Function.update_of_ne hid] at hc
      rcases hcalls _ _ hc with ⟨hn, -⟩ | ⟨-, hc⟩
      · have := h.numbered id; omega
      · exact h.latest id call hc

end Settled

/-! ## What a step leaves alone -/

section keeps

variable {itemId id : String}

theorem keeps_setCommand {command : ItemSyncCommand} (hsame : s.SameItem command) (hne : itemId ≠ command.entityId) :
    Keeps s (s.setCommand command) itemId :=
  ⟨project_congr rfl (filter_setCommand hsame hne), rfl, rfl, rfl, fun _ _ hc _ => hc, rfl⟩

theorem keeps_deleteCommand {command : ItemSyncCommand} (hsame : s.SameItem command) (hne : itemId ≠ command.entityId) :
    Keeps s (s.deleteCommand command) itemId :=
  ⟨project_congr rfl (filter_deleteCommand hsame hne), rfl, rfl, rfl, fun _ _ hc _ => hc, rfl⟩

theorem keeps_setAuthoritative (hne : itemId ≠ id) (item : Option CachedEncryptedItem) :
    Keeps s (s.setAuthoritative id item) itemId :=
  ⟨project_congr (Function.update_of_ne hne ..) rfl, rfl, rfl, rfl, fun _ _ hc _ => hc, rfl⟩

theorem keeps_setCached (item : Option CachedEncryptedItem) : Keeps s (s.setCached id item) itemId :=
  ⟨rfl, rfl, rfl, rfl, fun _ _ hc _ => hc, rfl⟩

theorem keeps_persistItem (item : CachedEncryptedItem) : Keeps s (s.persistItem item).1 itemId :=
  ⟨rfl, rfl, rfl, rfl, fun _ _ hc _ => hc, rfl⟩

theorem keeps_setItem (hne : itemId ≠ id) (item : Option VaultRepositoryItem) : Keeps s (s.setItem id item) itemId :=
  ⟨rfl, Function.update_of_ne hne .., rfl, rfl, fun _ _ hc _ => hc, rfl⟩

theorem keeps_await (h : s.Settled) (call : ReplicaCall) : Keeps s (s.await call) itemId := by
  refine ⟨rfl, rfl, rfl, rfl, fun n c hc _ => ?_, await_calls_of_ne ?_⟩
  · rw [await_calls_of_ne (h.fresh.ne_next hc)]; exact hc
  · have := h.numbered itemId; omega

theorem keeps_release {n : Nat} {call : ReplicaCall} (hcall : s.calls n = some call) (hs : call.settles ≠ some itemId)
    (hlatest : s.latestRebuild itemId ≠ n) : Keeps s (s.release n) itemId := by
  refine ⟨rfl, rfl, rfl, rfl, fun m c hc hset => ?_, release_calls_of_ne hlatest⟩
  have hmn : m ≠ n := by
    intro hmn
    rw [hmn, hcall] at hc
    exact hs (Option.some.inj hc ▸ hset)
  rw [release_calls_of_ne hmn]; exact hc

theorem keeps_rebuild (h : s.Settled) (hne : itemId ≠ id) : Keeps s (s.rebuildItemProjection id) itemId := by
  obtain ⟨projected, hproject⟩ := project_ok h.projectable id
  refine ⟨project_congr (by simp) (by simp), rebuild_items_of_ne hne, ?_, by simp, fun n c hc _ => ?_, ?_⟩
  · rw [rebuild_latestRebuild hproject, Function.update_of_ne hne]
  · rw [rebuild_calls_of_ne (h.fresh.ne_next hc)]; exact hc
  · have := h.numbered itemId
    exact rebuild_calls_of_ne (by omega)

/-- A call that is not a rebuild and has not changed the item. -/
theorem Settled.keeps_release (h : s.Settled) {n : Nat} {call : ReplicaCall} (hcall : s.calls n = some call)
    (hs : call.settles ≠ some itemId) (hr : ∀ projected generation, call ≠ .rebuilding itemId projected generation) :
    Keeps s (s.release n) itemId := by
  refine AccountVaultReplica.keeps_release hcall hs fun hn => ?_
  obtain ⟨projected, generation, hc⟩ := h.latest itemId call (hn ▸ hcall)
  exact hr _ _ hc

end keeps

/-! ## The steps -/

theorem follows_rebuild (h : s.Settled) (itemId : String) : Follows plaintext (s.rebuildItemProjection itemId) itemId := by
  obtain ⟨projected, hproject⟩ := project_ok h.projectable itemId
  have ht : (s.rebuildItemProjection itemId).project itemId = .ok projected :=
    (project_congr (by simp) (by simp)).trans hproject
  have hlatest : (s.rebuildItemProjection itemId).latestRebuild itemId = s.next := by
    rw [rebuild_latestRebuild hproject, Function.update_self]
  refine .inr ?_
  rw [hlatest, ht]
  cases projected with
  | none =>
    refine .inr ⟨?_, none, ht, rebuild_items_self hproject⟩
    rw [rebuild_calls_none hproject]
    exact h.fresh.next
  | some p => exact .inl ⟨p, rfl, by rw [rebuild_calls_next hproject, rebuild_hydrationGeneration]⟩

theorem follows_await {itemId : String} {call : ReplicaCall} (hs : call.settles = some itemId) :
    Follows plaintext (s.await call) itemId :=
  .inl ⟨s.next, call, await_calls_next, hs⟩

/-- The invariant of the runs in order. -/
structure Converges (plaintext : CachedEncryptedItem → Option String) (s : AccountVaultReplica) : Prop where
  settled : s.Settled
  follows : ∀ itemId, Follows plaintext s itemId

/-- A step that changes what one item is projected from and rebuilds it. -/
theorem Converges.rebuild (h : Converges plaintext s) (ht : t.Settled) {itemId : String}
    (hk : ∀ id, id ≠ itemId → Keeps s t id) : Converges plaintext (t.rebuildItemProjection itemId) where
  settled := ht.rebuild itemId
  follows id := by
    by_cases hid : id = itemId
    · subst hid; exact follows_rebuild ht id
    · exact (h.follows id).keeps ((hk id hid).trans (keeps_rebuild ht hid))

/-- A step that changes it and waits before it rebuilds it. -/
theorem Converges.await (h : Converges plaintext s) (ht : t.Settled) {itemId : String} {call : ReplicaCall}
    (hs : call.settles = some itemId) (hk : ∀ id, id ≠ itemId → Keeps s t id) : Converges plaintext (t.await call) where
  settled := ht.await fun id p g hc => by rw [hc] at hs; cases hs
  follows id := by
    by_cases hid : id = itemId
    · subst hid; exact follows_await hs
    · exact (h.follows id).keeps ((hk id hid).trans (keeps_await ht call))

/-- A step that changes nothing a projection is made of. -/
theorem Converges.keeps (h : Converges plaintext s) (ht : t.Settled) (hk : ∀ id, Keeps s t id) :
    Converges plaintext t where
  settled := ht
  follows id := (h.follows id).keeps (hk id)

theorem Converges.acknowledge (h : Converges plaintext s) {command : ItemSyncCommand} (hp : command.Projectable)
    (hsame : s.SameItem command) (version : Nat) :
    Converges plaintext (s.acknowledge command command.entityId version) := by
  have hd := h.settled.deleteCommand command
  have hkd : ∀ id, id ≠ command.entityId → Keeps s (s.deleteCommand command) id := fun _ => keeps_deleteCommand hsame
  have hremove : Converges plaintext (((s.deleteCommand command).setAuthoritative command.entityId none).await
      (.removing command.entityId)) :=
    h.await (hd.setAuthoritative _ _) rfl fun id hid => (hkd id hid).trans (keeps_setAuthoritative hid _)
  have hrebuild : Converges plaintext ((s.deleteCommand command).rebuildItemProjection command.entityId) :=
    h.rebuild hd hkd
  unfold AccountVaultReplica.acknowledge
  simp only
  split
  · exact hremove
  · exact hremove
  · split
    · exact hrebuild
    · obtain ⟨projected, hprojected⟩ :=
        applyCommandToCachedItem_ok hp ((s.deleteCommand command).authoritativeItems command.entityId)
      rw [hprojected]
      cases projected with
      | none => exact hrebuild
      | some projected =>
        exact h.await (hd.setAuthoritative _ _) rfl fun id hid => (hkd id hid).trans (keeps_setAuthoritative hid _)

/-- The end of a rebuild, in order. -/
theorem Converges.endRebuild (h : Converges plaintext s) {n : Nat} {itemId : String} {projected : CachedEncryptedItem}
    {generation : Nat} (hcall : s.calls n = some (.rebuilding itemId projected generation))
    (horder : s.latestRebuild itemId = n ∨ s.calls (s.latestRebuild itemId) ≠ none) :
    Converges plaintext ((s.release n).endRebuild plaintext itemId projected generation) := by
  have hg : generation = s.hydrationGeneration := h.settled.generation _ _ _ _ hcall
  have hend : (s.release n).endRebuild plaintext itemId projected generation =
      (s.release n).setItem itemId (decryptItem plaintext projected) := if_neg fun hne => hne hg
  have hr := h.settled.release n
  rw [hend]
  refine ⟨⟨hr.fresh, hr.numbered, hr.hydration, hr.generation, hr.latest, hr.projectable⟩, fun id => ?_⟩
  by_cases hid : id = itemId
  · subst hid
    rcases h.follows id with ⟨m, call, hc, hs⟩ | ⟨p, hp, hc⟩ | ⟨hnone, -⟩
    · have hmn : m ≠ n := by
        intro hmn
        rw [hmn, hcall] at hc
        rw [← Option.some.inj hc] at hs; cases hs
      exact .inl ⟨m, call, (release_calls_of_ne hmn).trans hc, hs⟩
    · by_cases hn : s.latestRebuild id = n
      · rw [hn, hcall] at hc
        cases hc
        exact .inr (.inr ⟨hn ▸ release_calls_self, some projected, hp, Function.update_self ..⟩)
      · exact .inr (.inl ⟨p, hp, (release_calls_of_ne hn).trans hc⟩)
    · rcases horder with hn | hn
      · rw [hn, hcall] at hnone; cases hnone
      · exact absurd hnone hn
  · exact (h.follows id).keeps ((h.settled.keeps_release hcall (by simp [ReplicaCall.settles])
      fun _ _ hc => hid (by cases hc; rfl)).trans (keeps_setItem hid _))

/-- **A step in order keeps the invariant.** -/
theorem Converges.step (h : Converges plaintext s) {a : ReplicaLabel} (ha : s.InOrder a)
    (hstep : s.step plaintext a = some t) : Converges plaintext t := by
  cases a with
  | applyItemCommand command =>
    cases hstep
    exact h.rebuild (h.settled.setCommand ha.1) fun _ => keeps_setCommand ha.2
  | acknowledgeItemCommand command entityId version =>
    obtain ⟨hp, hsame, rfl⟩ := ha
    cases version with
    | none => cases hstep; exact h
    | some version => cases hstep; exact h.acknowledge hp hsame version
  | preserveItemConflict command =>
    have hawait : ∀ item, Converges plaintext (s.await (.preserving command item)) := fun item =>
      h.keeps (h.settled.await fun _ _ _ hc => by cases hc) fun _ => keeps_await h.settled _
    simp only [AccountVaultReplica.step] at hstep
    split at hstep <;> cases hstep
    · exact hawait _
    · exact hawait _
    · exact hawait _
    · exact h
  | upsertEncrypted item =>
    simp only [AccountVaultReplica.step, Option.some.injEq] at hstep
    split at hstep <;> subst hstep
    · have hp := h.settled.persistItem item
      exact h.keeps (hp.await fun _ _ _ hc => by cases hc) fun _ => (keeps_persistItem item).trans (keeps_await hp _)
    · exact h
  | removeCachedItem itemId =>
    simp only [AccountVaultReplica.step, Option.some.injEq] at hstep
    split at hstep <;> subst hstep
    · exact h.rebuild h.settled fun _ _ => ⟨rfl, rfl, rfl, rfl, fun _ _ hc _ => hc, rfl⟩
    · exact h.await (h.settled.setAuthoritative _ _) rfl fun _ hid => keeps_setAuthoritative hid _
  | resume n =>
    obtain ⟨call, hcall, rfl⟩ := Option.map_eq_some_iff.mp hstep
    have hend := ha call hcall
    have hr := h.settled.release n
    cases call with
    | upserting item =>
      have hk : ∀ id, Keeps s (s.release n) id := fun id =>
        h.settled.keeps_release hcall (by simp [ReplicaCall.settles]) fun _ _ hc => by cases hc
      simp only [proceed]
      split
      · exact h.keeps hr hk
      · exact h.rebuild (hr.setAuthoritative _ _) fun id hid => (hk id).trans (keeps_setAuthoritative hid _)
    | acknowledging item =>
      refine h.rebuild (hr.persistItem item) fun id hid => Keeps.trans ?_ (keeps_persistItem item)
      refine h.settled.keeps_release hcall (fun hs => hid ?_) fun _ _ hc => by cases hc
      exact (Option.some.inj hs).symm
    | removing itemId =>
      refine h.rebuild (hr.setCached _ _) fun id hid => Keeps.trans ?_ (keeps_setCached _)
      refine h.settled.keeps_release hcall (fun hs => hid ?_) fun _ _ hc => by cases hc
      exact (Option.some.inj hs).symm
    | preserving command item =>
      refine h.rebuild (hr.deleteCommand _) fun id hid => Keeps.trans ?_ (keeps_deleteCommand (s := s.release n) hend hid)
      exact h.settled.keeps_release hcall (by simp [ReplicaCall.settles]) fun _ _ hc => by cases hc
    | rebuilding itemId projected generation => exact h.endRebuild hcall hend
  | reject n =>
    obtain ⟨command, item, hcall⟩ := ha
    simp only [AccountVaultReplica.step, hcall, Option.bind_some, ReplicaCall.rejects, if_true] at hstep
    cases hstep
    exact h.keeps (h.settled.release n) fun id =>
      h.settled.keeps_release hcall (by simp [ReplicaCall.settles]) fun _ _ hc => by cases hc
  | hydrate | hydrateFromServer | promote | resumeHydration | rejectHydration => exact absurd ha id

theorem AtRest.converges (h : s.AtRest plaintext) : Converges plaintext s where
  settled := by
    refine ⟨fun n _ => h.quiet.1 n, h.numbered, h.quiet.2, fun n _ _ _ hc => ?_, fun id call hc => ?_, h.projectable⟩
    · rw [h.quiet.1 n] at hc; cases hc
    · rw [h.quiet.1] at hc; cases hc
  follows id := .inr (.inr ⟨h.quiet.1 _, h.shows id⟩)

/-- **The display converges**: in every run in order, whenever no call is in progress, what is
displayed of each item is what its pending commands, by their timestamps, make of its record. -/
theorem projection_converges (h : (accountVaultReplica plaintext).ReachableUnder InOrder s) (hquiet : s.Quiet)
    (itemId : String) : s.ShowsProjection plaintext itemId := by
  have hc : Converges plaintext s :=
    h.invariant (Converges plaintext) (fun _ hs => AtRest.converges hs) fun _ _ _ _ hI hC hs => hI.step hC hs
  rcases hc.follows itemId with ⟨n, call, hn, -⟩ | ⟨_, -, hn⟩ | ⟨-, hshows⟩
  · rw [hquiet.1 n] at hn; cases hn
  · rw [hquiet.1] at hn; cases hn
  · exact hshows

/-- A record of version `version`, its plaintext in the clear, and a replica at rest that has
version 1 of it. -/
def clearItem (version : Nat) (data : String) : CachedEncryptedItem :=
  ⟨"item", "vault", .login, false, data, "iv", "AES-256-GCM", version, "user", version, "user", 1, version, none⟩

def restingItems : CachedItems := fun id => if id = "item" then some (clearItem 1 "one") else none

def restingReplica : AccountVaultReplica where
  itemCache := restingItems
  authoritativeItems := restingItems
  pendingCommands := []
  items id := (restingItems id).bind (decryptItem fun item => some item.encryptedData)
  hydrating := false
  hydrated := true
  hydrationGeneration := 1
  calls _ := none
  hydration := .none
  next := 1
  latestRebuild _ := 0

theorem restingReplica_atRest : restingReplica.AtRest fun item => some item.encryptedData where
  quiet := ⟨fun _ => rfl, rfl⟩
  hydrating := rfl
  numbered _ := Nat.zero_lt_one
  projectable _ hc := by cases hc
  shows id := ⟨restingItems id, rfl, rfl⟩
  filed id item h := by
    have h : (if id = "item" then some (clearItem 1 "one") else none) = some item := h
    split at h
    · next hid => cases h; exact hid.symm
    · cases h
  hydrated _ := rfl
  unhydrated h := by cases h

/-- Of two rebuilds that overlap, the one that was started first ends first. -/
theorem projection_converges_two_rebuilds :
    ∃ s, (accountVaultReplica fun item => some item.encryptedData).ReachableUnder InOrder s ∧
      s.ShowsProjection (fun item => some item.encryptedData) "item" := by
  have h1 := System.ReachableUnder.step (M := accountVaultReplica fun item => some item.encryptedData) (C := InOrder)
    (.upsertEncrypted (clearItem 2 "two")) (.init restingReplica_atRest) trivial rfl
  have h2 := h1.step (ReplicaLabel.resume 1) (fun call hc => by cases hc; trivial) rfl
  have h3 := h2.step (ReplicaLabel.upsertEncrypted (clearItem 3 "three")) trivial rfl
  have h4 := h3.step (ReplicaLabel.resume 3) (fun call hc => by cases hc; trivial) rfl
  have h5 := h4.step (ReplicaLabel.resume 2) (fun call hc => by cases hc; exact .inr (by decide +kernel)) rfl
  have h6 := h5.step (ReplicaLabel.resume 4) (fun call hc => by cases hc; exact .inl rfl) rfl
  exact ⟨_, h6, projection_converges h6 ⟨fun n => by rcases n with _ | _ | _ | _ | _ | n <;> rfl, rfl⟩ "item"⟩

/-- When it ends last, the older record stays on display. -/
theorem earlier_rebuild_ends_last :
    ∃ s, (accountVaultReplica fun item => some item.encryptedData).Reachable s ∧ s.Quiet ∧
      ¬ s.ShowsProjection (fun item => some item.encryptedData) "item" := by
  have hrun : (accountVaultReplica fun item => some item.encryptedData).run restingReplica
    [.upsertEncrypted (clearItem 2 "two"), .resume 1, .upsertEncrypted (clearItem 3 "three"), .resume 3,
      .resume 4, .resume 2] = some _ := rfl
  refine ⟨_, System.Reachable.run (.init restingReplica_atRest) hrun, ⟨fun n => ?_, rfl⟩, ?_⟩
  · rcases n with _ | _ | _ | _ | _ | n <;> rfl
  · intro ⟨projected, hproject, hshows⟩
    cases hproject
    exact absurd hshows (by decide +kernel)

end AccountVaultReplica

end Bittery
