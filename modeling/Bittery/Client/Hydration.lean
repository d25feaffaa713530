/-
Hydrations beside the calls that write single records.

A hydration reads the cache, decrypts, and replaces the whole map in memory by what it has
read. It does not look at what was written meanwhile, though the cache does (`promote` merges),
and nothing orders it with the calls that write a record to both. `Undisturbed` says which
steps keep out of each other's way; in runs of such steps the records in memory and in the
cache are two copies that the calls keep equal (`Lib.Copies`), and a hydration changes
neither back.
-/
import Bittery.Client.Projections
import Bittery.Lib.Copies

namespace Bittery

open Lib

/-- A call does not write this version of an item, and is not a removal of it beside a write.
A removal has no version. -/
def ReplicaCall.Apart (itemId : String) (version : Option Nat) : ReplicaCall → Prop
  | .upserting item | .acknowledging item => item.id = itemId → version.isSome ∧ version ≠ some item.version
  | .removing id => id = itemId → version = none
  | .preserving .. | .rebuilding .. => True

/-- The item of which a call is between its two writes. -/
def ReplicaCall.writes : ReplicaCall → Option String
  | .upserting item | .acknowledging item => some item.id
  | .removing itemId => some itemId
  | .preserving .. | .rebuilding .. => none

theorem ReplicaCall.writes_ne {call : ReplicaCall} {itemId id : String} (hw : call.writes = some itemId)
    (hid : id ≠ itemId) : call.writes ≠ some id := fun h => hid (Option.some.inj (h.symm.trans hw))

namespace Hydration

/-- The cache was read, or written to be read, and the memory is about to be replaced. -/
def isReplacing : Hydration → Bool
  | .promoted .. | .restoring .. | .decrypting .. => true
  | _ => false

/-- The same, of a refresh from the server. -/
def isPromoted : Hydration → Bool
  | .promoted .. | .restoring .. | .decrypting false .. => true
  | _ => false

def isProjecting : Hydration → Bool
  | .projecting .. => true
  | _ => false

def generation : Hydration → Option Nat
  | .none => Option.none
  | .reading g | .staging g _ | .fetching g _ _ | .promoted g _ | .restoring g _ _ | .decrypting _ g _
  | .projecting _ g _ _ => some g

end Hydration

def ReplicaLabel.isHydration : ReplicaLabel → Bool
  | .hydrate | .hydrateFromServer | .promote _ | .resumeHydration | .rejectHydration => true
  | _ => false

namespace AccountVaultReplica

variable {plaintext : CachedEncryptedItem → Option String} {s t : AccountVaultReplica}

def Apart (s : AccountVaultReplica) (itemId : String) (version : Option Nat) : Prop :=
  ∀ n call, s.calls n = some call → call.Apart itemId version

/-- The calls that are between their two writes of one item write different versions, none of
them is a removal beside another, and the second write does not fail. -/
def WritesApart (s : AccountVaultReplica) : ReplicaLabel → Prop
  | .upsertEncrypted item => s.Apart item.id (some item.version)
  | .acknowledgeItemCommand command entityId (some version) =>
    match command.type with
    | .crossAccountMove => s.Apart command.entityId none
    | .permanentDelete => s.Apart entityId none
    | _ => s.Apart entityId (some version)
  | .removeCachedItem itemId => s.Apart itemId none
  | .reject n => ∀ call, s.calls n = some call → call.writes = none
  | _ => True

/-- A refresh promotes while no call is between its two writes, does not fail from then on, and
writes back a record only if it still is the one in memory, or none is; the memory is replaced
while no call still has to write the cache. -/
def HydratesAlone (s : AccountVaultReplica) : ReplicaLabel → Prop
  | .promote _ => ∀ n call, s.calls n = some call → call.writes = none
  | .rejectHydration => s.hydration.isPromoted = false
  | .resumeHydration =>
    match s.hydration with
    | .restoring _ _ (base :: _) => s.authoritativeItems base.id = none ∨ s.authoritativeItems base.id = some base
    | .decrypting .. => ∀ n call, s.calls n = some call → call.settles = none
    | _ => True
  | _ => True

/-- **Undisturbed**: and from when a hydration has read the cache, or promoted, until it replaces
the memory, no call changes either. -/
def Undisturbed (plaintext : CachedEncryptedItem → Option String) (s : AccountVaultReplica) (a : ReplicaLabel) : Prop :=
  s.WritesApart a ∧ s.HydratesAlone a ∧
  (s.hydration.isReplacing = true → a.isHydration = false → ∀ t, s.step plaintext a = some t →
    t.authoritativeItems = s.authoritativeItems ∧ t.itemCache = s.itemCache)

/-- A step that takes the record of an item out of the memory on purpose. A refresh does when the
promoted cache has none. -/
def Removes (s : AccountVaultReplica) (itemId : String) : ReplicaLabel → Prop
  | .removeCachedItem id => id = itemId
  | .acknowledgeItemCommand command entityId _ =>
    (command.type = .crossAccountMove ∧ command.entityId = itemId) ∨ (command.type = .permanentDelete ∧ entityId = itemId)
  | .resumeHydration => s.hydration.isPromoted = true ∧ s.itemCache itemId = none
  | _ => False

/-! ## The copies of a record -/

/-- The record of an item in memory and in the cache, and the calls between their two writes. -/
def copies (s : AccountVaultReplica) (itemId : String) : Copies CachedEncryptedItem where
  front := s.authoritativeItems itemId
  back := s.itemCache itemId
  toFront := {item | ∃ n, s.calls n = some (.upserting item) ∧ item.id = itemId}
  toBack := {item | ∃ n, s.calls n = some (.acknowledging item) ∧ item.id = itemId}
  removing := ∃ n, s.calls n = some (.removing itemId)

theorem copies_congr {itemId : String} (hmemory : t.authoritativeItems itemId = s.authoritativeItems itemId)
    (hcache : t.itemCache itemId = s.itemCache itemId)
    (hcalls : ∀ n call, call.writes = some itemId → (t.calls n = some call ↔ s.calls n = some call)) :
    t.copies itemId = s.copies itemId := by
  refine Copies.ext hmemory hcache ?_ ?_ ?_
  · ext item
    refine exists_congr fun n => and_congr_left fun hid => hcalls n _ ?_
    exact congrArg some hid
  · ext item
    refine exists_congr fun n => and_congr_left fun hid => hcalls n _ ?_
    exact congrArg some hid
  · exact propext (exists_congr fun n => hcalls n _ rfl)

theorem release_calls_iff {m n : Nat} {call released : ReplicaCall} (hn : s.calls n = some released)
    (hne : call ≠ released) : (s.release n).calls m = some call ↔ s.calls m = some call := by
  by_cases hmn : m = n
  · subst hmn
    rw [release_calls_self, hn]
    exact ⟨(fun h => by cases h), fun h => absurd (Option.some.inj h).symm hne⟩
  · rw [release_calls_of_ne hmn]

theorem await_calls_iff {n : Nat} {call added : ReplicaCall} (hfresh : s.calls s.next = none) (hne : call ≠ added) :
    (s.await added).calls n = some call ↔ s.calls n = some call := by
  by_cases hn : n = s.next
  · subst hn
    rw [await_calls_next, hfresh]
    exact ⟨fun h => absurd (Option.some.inj h).symm hne, (fun h => by cases h)⟩
  · rw [await_calls_of_ne hn]

theorem copies_release_of_ne {n : Nat} {call : ReplicaCall} {itemId : String} (hn : s.calls n = some call)
    (hne : call.writes ≠ some itemId) : (s.release n).copies itemId = s.copies itemId :=
  copies_congr rfl rfl fun _ _ hw => release_calls_iff hn fun h => hne (h ▸ hw)

theorem copies_await_of_ne {call : ReplicaCall} {itemId : String} (hfresh : s.calls s.next = none)
    (hne : call.writes ≠ some itemId) : (s.await call).copies itemId = s.copies itemId :=
  copies_congr rfl rfl fun _ _ hw => await_calls_iff hfresh fun h => hne (h ▸ hw)

theorem copies_setAuthoritative_of_ne {id itemId : String} {item : Option CachedEncryptedItem} (hne : itemId ≠ id) :
    (s.setAuthoritative id item).copies itemId = s.copies itemId :=
  copies_congr (Function.update_of_ne hne ..) rfl fun _ _ _ => Iff.rfl

theorem copies_setCached_of_ne {id itemId : String} {item : Option CachedEncryptedItem} (hne : itemId ≠ id) :
    (s.setCached id item).copies itemId = s.copies itemId :=
  copies_congr rfl (Function.update_of_ne hne ..) fun _ _ _ => Iff.rfl

theorem copies_setAuthoritative (itemId : String) (item : Option CachedEncryptedItem) :
    (s.setAuthoritative itemId item).copies itemId = { s.copies itemId with front := item } :=
  Copies.ext (Function.update_self ..) rfl rfl rfl rfl

theorem copies_setCached (itemId : String) (item : Option CachedEncryptedItem) :
    (s.setCached itemId item).copies itemId = { s.copies itemId with back := item } :=
  Copies.ext rfl (Function.update_self ..) rfl rfl rfl

theorem copies_rebuild (h : s.Fresh) (id itemId : String) :
    (s.rebuildItemProjection id).copies itemId = s.copies itemId := by
  refine copies_congr (by simp) (by simp) fun n call hw => ?_
  by_cases hn : n = s.next
  · subst hn
    rw [h.next]
    refine ⟨fun hc => ?_, fun hc => by cases hc⟩
    cases hproject : s.project id with
    | error e =>
      rw [show s.rebuildItemProjection id = s by simp [rebuildItemProjection, hproject], h.next] at hc
      cases hc
    | ok projected =>
      cases projected with
      | none => rw [rebuild_calls_none hproject, h.next] at hc; cases hc
      | some p =>
        rw [rebuild_calls_next hproject] at hc
        cases hc; cases hw
  · rw [rebuild_calls_of_ne hn]

section await

variable (hfresh : s.calls s.next = none)
include hfresh

theorem copies_await_upserting (item : CachedEncryptedItem) : (s.await (.upserting item)).copies item.id =
    { s.copies item.id with toFront := insert item (s.copies item.id).toFront } := by
  refine Copies.ext rfl rfl ?_ ?_ ?_
  · ext y
    by_cases hy : y = item
    · subst hy
      exact ⟨fun _ => .inl rfl, fun _ => ⟨s.next, await_calls_next, rfl⟩⟩
    · have hne : ReplicaCall.upserting y ≠ .upserting item := fun h => hy (ReplicaCall.upserting.inj h)
      refine (exists_congr fun n => and_congr_left fun _ => await_calls_iff hfresh hne).trans ?_
      exact ⟨.inr, fun h => h.resolve_left hy⟩
  · ext y
    exact exists_congr fun n => and_congr_left fun _ => await_calls_iff hfresh (by simp)
  · exact propext (exists_congr fun n => await_calls_iff hfresh (by simp))

theorem copies_await_acknowledging (item : CachedEncryptedItem) : (s.await (.acknowledging item)).copies item.id =
    { s.copies item.id with toBack := insert item (s.copies item.id).toBack } := by
  refine Copies.ext rfl rfl ?_ ?_ ?_
  · ext y
    exact exists_congr fun n => and_congr_left fun _ => await_calls_iff hfresh (by simp)
  · ext y
    by_cases hy : y = item
    · subst hy
      exact ⟨fun _ => .inl rfl, fun _ => ⟨s.next, await_calls_next, rfl⟩⟩
    · have hne : ReplicaCall.acknowledging y ≠ .acknowledging item := fun h => hy (ReplicaCall.acknowledging.inj h)
      refine (exists_congr fun n => and_congr_left fun _ => await_calls_iff hfresh hne).trans ?_
      exact ⟨.inr, fun h => h.resolve_left hy⟩
  · exact propext (exists_congr fun n => await_calls_iff hfresh (by simp))

theorem copies_await_removing (itemId : String) : (s.await (.removing itemId)).copies itemId =
    { s.copies itemId with removing := True } := by
  refine Copies.ext rfl rfl ?_ ?_ ?_
  · ext y
    exact exists_congr fun n => and_congr_left fun _ => await_calls_iff hfresh (by simp)
  · ext y
    exact exists_congr fun n => and_congr_left fun _ => await_calls_iff hfresh (by simp)
  · exact propext ⟨fun _ => trivial, fun _ => ⟨s.next, await_calls_next⟩⟩

end await

theorem copies_release_upserting {n : Nat} {item : CachedEncryptedItem} (hn : s.calls n = some (.upserting item)) :
    ∃ p, Copies.Drops item (s.copies item.id).toFront p ∧
      (s.release n).copies item.id = { s.copies item.id with toFront := p } := by
  refine ⟨((s.release n).copies item.id).toFront, ⟨?_, ?_⟩, Copies.ext rfl rfl rfl ?_ ?_⟩
  · rintro y ⟨m, hm, hid⟩
    exact ⟨m, (calls_of_release hm).2, hid⟩
  · rintro y ⟨m, hm, hid⟩ hne
    exact ⟨m, (release_calls_iff hn fun h => hne (ReplicaCall.upserting.inj h)).mpr hm, hid⟩
  · ext y
    exact exists_congr fun m => and_congr_left fun _ => release_calls_iff hn (by simp)
  · exact propext (exists_congr fun m => release_calls_iff hn (by simp))

theorem copies_release_acknowledging {n : Nat} {item : CachedEncryptedItem} (hn : s.calls n = some (.acknowledging item)) :
    ∃ q, Copies.Drops item (s.copies item.id).toBack q ∧
      (s.release n).copies item.id = { s.copies item.id with toBack := q } := by
  refine ⟨((s.release n).copies item.id).toBack, ⟨?_, ?_⟩, Copies.ext rfl rfl ?_ rfl ?_⟩
  · rintro y ⟨m, hm, hid⟩
    exact ⟨m, (calls_of_release hm).2, hid⟩
  · rintro y ⟨m, hm, hid⟩ hne
    exact ⟨m, (release_calls_iff hn fun h => hne (ReplicaCall.acknowledging.inj h)).mpr hm, hid⟩
  · ext y
    exact exists_congr fun m => and_congr_left fun _ => release_calls_iff hn (by simp)
  · exact propext (exists_congr fun m => release_calls_iff hn (by simp))

theorem copies_release_removing {n : Nat} {itemId : String} (hn : s.calls n = some (.removing itemId)) :
    ∃ r, (s.release n).copies itemId = { s.copies itemId with removing := r } := by
  refine ⟨_, Copies.ext rfl rfl ?_ ?_ rfl⟩
  · ext y
    exact exists_congr fun m => and_congr_left fun _ => release_calls_iff hn (by simp)
  · ext y
    exact exists_congr fun m => and_congr_left fun _ => release_calls_iff hn (by simp)

theorem Apart.not_removing {itemId : String} {version : Nat} (h : s.Apart itemId (some version)) :
    ¬ (s.copies itemId).removing := by
  intro ⟨n, hn⟩
  exact absurd (h n _ hn rfl) (Option.some_ne_none version)

theorem Apart.pending_ne {itemId : String} {version : Nat} (h : s.Apart itemId (some version)) :
    ∀ y ∈ (s.copies itemId).pending, y.version ≠ version := by
  rintro y (⟨n, hn, hid⟩ | ⟨n, hn, hid⟩) hv
  · exact (h n _ hn hid).2 (by rw [hv])
  · exact (h n _ hn hid).2 (by rw [hv])

theorem Apart.pending_empty {itemId : String} (h : s.Apart itemId none) : (s.copies itemId).pending = ∅ := by
  refine Set.eq_empty_of_forall_notMem ?_
  rintro y (⟨n, hn, hid⟩ | ⟨n, hn, hid⟩)
  · exact absurd (h n _ hn hid).1 (by simp)
  · exact absurd (h n _ hn hid).1 (by simp)

/-- What a step does to the record of an item is one of the operations on the copies. -/
abbrev Preserved (s t : AccountVaultReplica) : Prop :=
  ∀ itemId, Copies.Preserves CachedEncryptedItem.version (s.copies itemId) (t.copies itemId)

theorem preserved_of_eq (h : ∀ itemId, t.copies itemId = s.copies itemId) : Preserved s t := fun itemId => by
  rw [h]; exact .refl

theorem preserved_of_ne {itemId : String} (hne : ∀ id, id ≠ itemId → t.copies id = s.copies id)
    (h : Copies.Preserves CachedEncryptedItem.version (s.copies itemId) (t.copies itemId)) : Preserved s t := fun id => by
  by_cases hid : id = itemId
  · subst hid; exact h
  · rw [hne id hid]; exact .refl

/-! ## The calls -/

theorem preserved_upsert (hfresh : s.calls s.next = none) {item : CachedEncryptedItem}
    (hapart : s.Apart item.id (some item.version)) (hnew : storedIsNewer (s.itemCache item.id) item = false) :
    Preserved s ((s.setCached item.id (some item)).await (.upserting item)) := by
  have hfresh' : (s.setCached item.id (some item)).calls (s.setCached item.id (some item)).next = none := hfresh
  refine preserved_of_ne (fun id (hid : id ≠ item.id) => ?_) ?_
  · exact (copies_await_of_ne hfresh' (ReplicaCall.writes_ne rfl hid)).trans (copies_setCached_of_ne hid)
  · rw [copies_await_upserting hfresh', copies_setCached]
    exact Copies.preserves_writeBack hnew hapart.not_removing hapart.pending_ne

theorem preserved_acknowledge (hfresh : s.calls s.next = none) {item : CachedEncryptedItem}
    (hapart : s.Apart item.id (some item.version))
    (hold : ∀ y, s.authoritativeItems item.id = some y → y.version < item.version) :
    Preserved s ((s.setAuthoritative item.id (some item)).await (.acknowledging item)) := by
  have hfresh' : (s.setAuthoritative item.id (some item)).calls (s.setAuthoritative item.id (some item)).next = none := hfresh
  refine preserved_of_ne (fun id (hid : id ≠ item.id) => ?_) ?_
  · exact (copies_await_of_ne hfresh' (ReplicaCall.writes_ne rfl hid)).trans (copies_setAuthoritative_of_ne hid)
  · rw [copies_await_acknowledging hfresh', copies_setAuthoritative]
    exact Copies.preserves_writeFront hold hapart.not_removing hapart.pending_ne

theorem preserved_remove (hfresh : s.calls s.next = none) {itemId : String} (hapart : s.Apart itemId none) :
    Preserved s ((s.setAuthoritative itemId none).await (.removing itemId)) := by
  have hfresh' : (s.setAuthoritative itemId none).calls (s.setAuthoritative itemId none).next = none := hfresh
  refine preserved_of_ne (fun id (hid : id ≠ itemId) => ?_) ?_
  · exact (copies_await_of_ne hfresh' (ReplicaCall.writes_ne rfl hid)).trans (copies_setAuthoritative_of_ne hid)
  · rw [copies_await_removing hfresh', copies_setAuthoritative]
    exact Copies.preserves_remove hapart.pending_empty

theorem preserved_upserted {n : Nat} {item : CachedEncryptedItem} (hn : s.calls n = some (.upserting item)) :
    Preserved s (if storedIsNewer (s.authoritativeItems item.id) item then s.release n
      else (s.release n).setAuthoritative item.id (some item)) := by
  refine preserved_of_ne (fun id (hid : id ≠ item.id) => ?_) ?_
  · have hr := copies_release_of_ne hn (ReplicaCall.writes_ne rfl hid)
    split
    · exact hr
    · exact (copies_setAuthoritative_of_ne hid).trans hr
  · obtain ⟨p, hp, hr⟩ := copies_release_upserting hn
    have hkey : Copies.Preserves CachedEncryptedItem.version (s.copies item.id) _ :=
      Copies.preserves_settleFront ⟨n, hn, rfl⟩ hp
    split
    · next hnew =>
      rw [hr]
      rwa [if_pos (show Copies.newer _ (s.copies item.id).front item = true from hnew)] at hkey
    · next hnew =>
      rw [copies_setAuthoritative, hr]
      rwa [if_neg (show ¬ Copies.newer _ (s.copies item.id).front item = true from hnew)] at hkey

theorem writeNewerItem_self (collection : CachedItems) (item : CachedEncryptedItem) :
    (writeNewerItem collection item).1 item.id =
      if storedIsNewer (collection item.id) item then collection item.id else some item := by
  unfold writeNewerItem
  split
  · rfl
  · exact Function.update_self ..

theorem writeNewerItem_of_ne {collection : CachedItems} {item : CachedEncryptedItem} {id : String} (hid : id ≠ item.id) :
    (writeNewerItem collection item).1 id = collection id := by
  unfold writeNewerItem
  split
  · rfl
  · exact Function.update_of_ne hid ..

theorem preserved_acknowledged {n : Nat} {item : CachedEncryptedItem} (hn : s.calls n = some (.acknowledging item)) :
    Preserved s ((s.release n).persistItem item).1 := by
  refine preserved_of_ne (fun id (hid : id ≠ item.id) => ?_) ?_
  · refine Eq.trans ?_ (copies_release_of_ne hn (ReplicaCall.writes_ne rfl hid))
    exact copies_congr rfl (writeNewerItem_of_ne hid) fun _ _ _ => Iff.rfl
  · obtain ⟨q, hq, hr⟩ := copies_release_acknowledging hn
    have hp : ((s.release n).persistItem item).1.copies item.id = { s.copies item.id with
        back := if Copies.newer CachedEncryptedItem.version (s.copies item.id).back item then (s.copies item.id).back else some item
        toBack := q } := by
      have hpersist : ((s.release n).persistItem item).1.copies item.id =
          { (s.release n).copies item.id with back := (writeNewerItem s.itemCache item).1 item.id } := rfl
      rw [hpersist, hr, writeNewerItem_self]
      rfl
    rw [hp]
    exact Copies.preserves_settleBack ⟨n, hn, rfl⟩ hq

theorem preserved_removed {n : Nat} {itemId : String} (hn : s.calls n = some (.removing itemId)) :
    Preserved s ((s.release n).setCached itemId none) := by
  refine preserved_of_ne (fun id (hid : id ≠ itemId) => ?_) ?_
  · exact (copies_setCached_of_ne hid).trans (copies_release_of_ne hn (ReplicaCall.writes_ne rfl hid))
  · obtain ⟨r, hr⟩ := copies_release_removing hn
    rw [copies_setCached, hr]
    exact Copies.preserves_removed ⟨n, hn⟩

/-! ## A step of a call -/

/-- Records are filed under their ids. -/
def Filed (collection : CachedItems) : Prop := ∀ id item, collection id = some item → item.id = id

theorem Filed.update {collection : CachedItems} (h : Filed collection) {itemId : String} {item : Option CachedEncryptedItem}
    (hitem : ∀ x, item = some x → x.id = itemId) : Filed (Function.update collection itemId item) := by
  intro id x hx
  rw [Function.update_apply] at hx
  split at hx
  · next hid => rw [hid]; exact hitem x hx
  · exact h id x hx

theorem Filed.writeNewerItem {collection : CachedItems} (h : Filed collection) (item : CachedEncryptedItem) :
    Filed (writeNewerItem collection item).1 := by
  unfold Bittery.writeNewerItem
  split
  · exact h
  · exact h.update fun x hx => by cases hx; rfl

structure Ready (s : AccountVaultReplica) : Prop where
  fresh : s.Fresh
  memoryFiled : Filed s.authoritativeItems
  cacheFiled : Filed s.itemCache

/-- What a step of a call, rather than of a hydration, does. -/
structure CallStep (s t : AccountVaultReplica) : Prop where
  ready : t.Ready
  preserved : Preserved s t
  hydration : t.hydration = s.hydration
  hydrated : t.hydrated = s.hydrated
  generation : t.hydrationGeneration = s.hydrationGeneration

theorem CallStep.rebuild (h : CallStep s t) (itemId : String) : CallStep s (t.rebuildItemProjection itemId) where
  ready := ⟨h.ready.fresh.rebuild itemId, by simpa using h.ready.memoryFiled, by simpa using h.ready.cacheFiled⟩
  preserved id := by rw [copies_rebuild h.ready.fresh]; exact h.preserved id
  hydration := by simpa using h.hydration
  hydrated := by simpa using h.hydrated
  generation := by simpa using h.generation

namespace Ready

/-- A step that is not about records. -/
theorem step_of_eq (h : s.Ready) (hfresh : t.Fresh) (hmemory : t.authoritativeItems = s.authoritativeItems)
    (hcache : t.itemCache = s.itemCache) (hcopies : ∀ id, t.copies id = s.copies id)
    (hhydration : t.hydration = s.hydration) (hhydrated : t.hydrated = s.hydrated)
    (hgeneration : t.hydrationGeneration = s.hydrationGeneration) : CallStep s t :=
  ⟨⟨hfresh, hmemory ▸ h.memoryFiled, hcache ▸ h.cacheFiled⟩, preserved_of_eq hcopies, hhydration, hhydrated, hgeneration⟩

theorem refl (h : s.Ready) : CallStep s s := h.step_of_eq h.fresh rfl rfl (fun _ => rfl) rfl rfl rfl

theorem commands (h : s.Ready) (commands : List ItemSyncCommand) : CallStep s { s with pendingCommands := commands } :=
  h.step_of_eq h.fresh rfl rfl (fun _ => rfl) rfl rfl rfl

theorem await (h : s.Ready) {call : ReplicaCall} (hw : call.writes = none) : CallStep s (s.await call) :=
  h.step_of_eq (h.fresh.await call) rfl rfl (fun _ => copies_await_of_ne h.fresh.next (by simp [hw])) rfl rfl rfl

theorem release (h : s.Ready) {n : Nat} {call : ReplicaCall} (hn : s.calls n = some call) (hw : call.writes = none) :
    CallStep s (s.release n) :=
  h.step_of_eq (h.fresh.release n) rfl rfl (fun _ => copies_release_of_ne hn (by simp [hw])) rfl rfl rfl

theorem remove (h : s.Ready) {itemId : String} (hapart : s.Apart itemId none) :
    CallStep s ((s.setAuthoritative itemId none).await (.removing itemId)) where
  ready :=
    { fresh := Fresh.await (s := s.setAuthoritative itemId none) h.fresh _
      memoryFiled := h.memoryFiled.update fun x hx => by cases hx
      cacheFiled := h.cacheFiled }
  preserved := preserved_remove h.fresh.next hapart
  hydration := rfl
  hydrated := rfl
  generation := rfl

theorem write (h : s.Ready) {item : CachedEncryptedItem} (hapart : s.Apart item.id (some item.version))
    (hold : ∀ y, s.authoritativeItems item.id = some y → y.version < item.version) :
    CallStep s ((s.setAuthoritative item.id (some item)).await (.acknowledging item)) where
  ready :=
    { fresh := Fresh.await (s := s.setAuthoritative item.id (some item)) h.fresh _
      memoryFiled := h.memoryFiled.update fun x hx => by cases hx; rfl
      cacheFiled := h.cacheFiled }
  preserved := preserved_acknowledge h.fresh.next hapart hold
  hydration := rfl
  hydrated := rfl
  generation := rfl

theorem acknowledge (h : s.Ready) {command : ItemSyncCommand} {entityId : String} {version : Nat}
    (ha : s.WritesApart (.acknowledgeItemCommand command entityId (some version))) :
    CallStep s (s.acknowledge command entityId version) := by
  have hd : CallStep s (s.deleteCommand command) := h.commands _
  have htrans : ∀ t, CallStep (s.deleteCommand command) t → CallStep s t := fun t ht =>
    ⟨ht.ready, ht.preserved, ht.hydration, ht.hydrated, ht.generation⟩
  unfold AccountVaultReplica.acknowledge
  simp only [WritesApart] at ha ⊢
  split
  · next hc =>
    rw [hc] at ha
    exact htrans _ (hd.ready.remove ha)
  · next hc =>
    rw [hc] at ha
    exact htrans _ (hd.ready.remove ha)
  · next hcross hdelete =>
    have ha : s.Apart entityId (some version) := by
      split at ha
      · next hc => exact absurd hc hcross
      · next hc => exact absurd hc hdelete
      · exact ha
    split
    · exact hd.rebuild entityId
    · next hold =>
      cases happly : applyCommandToCachedItem ((s.deleteCommand command).authoritativeItems entityId) command with
      | error e => exact hd
      | ok projected =>
        cases projected with
        | none => exact hd.rebuild entityId
        | some projected =>
          refine htrans _ (@write _ hd.ready { projected with id := entityId, version := version } ha fun y hy => ?_)
          rw [show (s.deleteCommand command).authoritativeItems entityId = some y from hy] at hold
          simpa using hold

end Ready

theorem not_newer_of_written {collection : CachedItems} {item : CachedEncryptedItem}
    (h : (writeNewerItem collection item).2 = true) : storedIsNewer (collection item.id) item = false := by
  unfold writeNewerItem at h
  split at h
  · cases h
  · next hn => simpa using hn

theorem writeNewerItem_written {collection : CachedItems} {item : CachedEncryptedItem}
    (h : storedIsNewer (collection item.id) item = false) :
    (writeNewerItem collection item).1 = Function.update collection item.id (some item) := by
  unfold writeNewerItem
  rw [if_neg (by simp [h])]

theorem Ready.proceed (h : s.Ready) {n : Nat} {call : ReplicaCall} (hn : s.calls n = some call) :
    CallStep s ((s.release n).proceed plaintext call) := by
  have hfresh : (s.release n).Fresh := h.fresh.release n
  cases call with
  | upserting item =>
    have hp := preserved_upserted hn
    simp only [AccountVaultReplica.proceed]
    by_cases hnew : storedIsNewer (s.authoritativeItems item.id) item
    · rw [if_pos hnew] at hp
      rw [if_pos (show storedIsNewer ((s.release n).authoritativeItems item.id) item = true from hnew)]
      exact ⟨⟨hfresh, h.memoryFiled, h.cacheFiled⟩, hp, rfl, rfl, rfl⟩
    · rw [if_neg hnew] at hp
      rw [if_neg (show ¬ storedIsNewer ((s.release n).authoritativeItems item.id) item = true from hnew)]
      have hs : CallStep s ((s.release n).setAuthoritative item.id (some item)) :=
        ⟨⟨hfresh, h.memoryFiled.update (by intro x hx; cases hx; rfl), h.cacheFiled⟩, hp, rfl, rfl, rfl⟩
      exact hs.rebuild item.id
  | acknowledging item =>
    have hs : CallStep s ((s.release n).persistItem item).1 :=
      ⟨⟨hfresh, h.memoryFiled, h.cacheFiled.writeNewerItem item⟩, preserved_acknowledged hn, rfl, rfl, rfl⟩
    exact hs.rebuild item.id
  | removing itemId =>
    have hs : CallStep s ((s.release n).setCached itemId none) :=
      ⟨⟨hfresh, h.memoryFiled, h.cacheFiled.update (by intro x hx; cases hx)⟩, preserved_removed hn, rfl, rfl, rfl⟩
    exact hs.rebuild itemId
  | preserving command item =>
    have hs : CallStep s (s.release n) := h.release hn rfl
    have hd : CallStep s ((s.release n).deleteCommand command) :=
      ⟨⟨hfresh, h.memoryFiled, h.cacheFiled⟩, hs.preserved, rfl, rfl, rfl⟩
    exact hd.rebuild command.entityId
  | rebuilding itemId projected generation =>
    have hs : CallStep s (s.release n) := h.release hn rfl
    simp only [AccountVaultReplica.proceed, endRebuild]
    split <;> exact ⟨⟨hfresh, h.memoryFiled, h.cacheFiled⟩, hs.preserved, rfl, rfl, rfl⟩

/-- **A step of a call** operates on the copies of the records, and on nothing else that
hydrations are about. -/
theorem Ready.callStep (h : s.Ready) {a : ReplicaLabel} (ha : s.WritesApart a) (hcall : a.isHydration = false)
    (hstep : s.step plaintext a = some t) : CallStep s t := by
  cases a with
  | applyItemCommand command =>
    cases hstep
    exact (h.commands _).rebuild command.entityId
  | acknowledgeItemCommand command entityId version =>
    cases version with
    | none => cases hstep; exact h.refl
    | some version => cases hstep; exact h.acknowledge ha
  | preserveItemConflict command =>
    simp only [AccountVaultReplica.step] at hstep
    split at hstep <;> cases hstep
    · exact h.await rfl
    · exact h.await rfl
    · exact h.await rfl
    · exact h.refl
  | upsertEncrypted item =>
    simp only [AccountVaultReplica.step, Option.some.injEq] at hstep
    split at hstep <;> subst hstep
    · next hw =>
      have hnew := not_newer_of_written hw
      have hp : (s.persistItem item).1 = s.setCached item.id (some item) := by
        simp only [AccountVaultReplica.persistItem, setCached, writeNewerItem_written hnew]
      rw [hp]
      exact ⟨⟨Fresh.await (s := s.setCached item.id (some item)) h.fresh _, h.memoryFiled,
        h.cacheFiled.update (by intro x hx; cases hx; rfl)⟩, preserved_upsert h.fresh.next ha hnew, rfl, rfl, rfl⟩
    · exact h.refl
  | removeCachedItem itemId =>
    simp only [AccountVaultReplica.step, Option.some.injEq] at hstep
    split at hstep <;> subst hstep
    · exact h.refl.rebuild itemId
    · exact h.remove ha
  | resume n =>
    obtain ⟨call, hn, rfl⟩ := Option.map_eq_some_iff.mp hstep
    exact h.proceed hn
  | reject n =>
    obtain ⟨call, hn, hstep⟩ := Option.bind_eq_some_iff.mp hstep
    split at hstep <;> cases hstep
    exact h.release hn (ha call hn)
  | hydrate | hydrateFromServer | promote | resumeHydration | rejectHydration => cases hcall

/-! ## The hydrations -/

/-- Nothing in memory is newer than in the cache. -/
def NotAhead (s : AccountVaultReplica) : Prop :=
  ∀ id x y, s.authoritativeItems id = some x → s.itemCache id = some y → x.version ≤ y.version

/-- What a hydration has read is what is there. -/
def Holds (s : AccountVaultReplica) : Hydration → Prop
  | .none | .reading _ | .projecting .. => True
  | .staging _ bases | .fetching _ bases _ => (bases.map CachedEncryptedItem.id).Nodup
  | .promoted _ bases => (bases.map CachedEncryptedItem.id).Nodup ∧ s.NotAhead
  | .restoring _ cachedItems missing =>
    cachedItems = s.itemCache ∧ (missing.map CachedEncryptedItem.id).Nodup ∧
      (∀ base ∈ missing, s.itemCache base.id = none) ∧ s.NotAhead
  | .decrypting isLocal _ cachedItems => cachedItems = s.itemCache ∧ (isLocal = false → s.NotAhead)

/-- **The invariant.** -/
structure Coherent (s : AccountVaultReplica) : Prop where
  ready : s.Ready
  generation : ∀ g, s.hydration.generation = some g → g = s.hydrationGeneration
  pairs : ∀ id, (s.copies id).Pairs CachedEncryptedItem.version
  backed : s.hydration.isPromoted = false → ∀ id, (s.copies id).Backed CachedEncryptedItem.version
  shown : s.hydration.isPromoted = false → s.hydrated = true ∨ s.hydration.isProjecting = true →
    ∀ id, (s.copies id).Shown CachedEncryptedItem.version
  holds : s.Holds s.hydration

theorem AtRest.coherent (h : s.AtRest plaintext) : s.Coherent where
  ready := by
    refine ⟨fun n _ => h.quiet.1 n, fun id item hitem => ?_, h.filed⟩
    cases hh : s.hydrated with
    | true => rw [h.hydrated hh] at hitem; exact h.filed id item hitem
    | false => rw [h.unhydrated hh] at hitem; cases hitem
  generation g hg := by rw [h.quiet.2] at hg; cases hg
  pairs id := by
    have hc : ∀ n call, s.calls n ≠ some call := fun n call hn => by rw [h.quiet.1 n] at hn; cases hn
    refine ⟨fun x hx => ?_, fun x hx => ?_, fun x hx => ?_, fun hr => ?_⟩
    · obtain ⟨n, hn, -⟩ := hx; exact absurd hn (hc _ _)
    · obtain ⟨n, hn, -⟩ := hx; exact absurd hn (hc _ _)
    · rcases hx with ⟨n, hn, -⟩ | ⟨n, hn, -⟩ <;> exact absurd hn (hc _ _)
    · obtain ⟨n, hn⟩ := hr; exact absurd hn (hc _ _)
  backed _ id x hx := by
    have hx : s.authoritativeItems id = some x := hx
    cases hh : s.hydrated with
    | true => rw [h.hydrated hh] at hx; exact .inl ⟨x, hx, Nat.le_refl _⟩
    | false => rw [h.unhydrated hh] at hx; cases hx
  shown _ hlive id y hy := by
    have hh : s.hydrated = true := by
      rcases hlive with hh | hp
      · exact hh
      · rw [h.quiet.2] at hp; cases hp
    refine .inl ?_
    show s.authoritativeItems id = some y
    rw [h.hydrated hh]; exact hy
  holds := by rw [h.quiet.2]; trivial

theorem holds_of_eq (hmemory : t.authoritativeItems = s.authoritativeItems) (hcache : t.itemCache = s.itemCache)
    {hydration : Hydration} (h : s.Holds hydration) : t.Holds hydration := by
  have hahead : s.NotAhead → t.NotAhead := fun hs => by simpa only [NotAhead, hmemory, hcache] using hs
  cases hydration with
  | none | reading | projecting => trivial
  | staging | fetching => exact h
  | promoted => exact ⟨h.1, hahead h.2⟩
  | restoring => simpa only [Holds, hcache] using ⟨h.1, h.2.1, h.2.2.1, hahead h.2.2.2⟩
  | decrypting => exact ⟨h.1.trans hcache.symm, fun hl => hahead (h.2 hl)⟩

/-- While a hydration is not replacing the memory, what it holds is not about the records. -/
theorem holds_of_not_replacing {hydration : Hydration} (hr : hydration.isReplacing = false) (h : s.Holds hydration) :
    t.Holds hydration := by
  cases hydration <;> first | exact h | cases hr

theorem Coherent.callStep (h : s.Coherent) (hc : CallStep s t)
    (hsame : s.hydration.isReplacing = true → t.authoritativeItems = s.authoritativeItems ∧ t.itemCache = s.itemCache) :
    t.Coherent where
  ready := hc.ready
  generation g hg := by rw [hc.hydration] at hg; rw [hc.generation]; exact h.generation g hg
  pairs id := (hc.preserved id).pairs (h.pairs id)
  backed hp id := (hc.preserved id).backed (h.pairs id) (h.backed (hc.hydration ▸ hp) id)
  shown hp hlive id := by
    rw [hc.hydrated, hc.hydration] at hlive
    exact (hc.preserved id).shown (h.pairs id) (h.shown (hc.hydration ▸ hp) hlive id)
  holds := by
    rw [hc.hydration]
    cases hr : s.hydration.isReplacing with
    | true => exact holds_of_eq (hsame hr).1 (hsame hr).2 h.holds
    | false => exact holds_of_not_replacing hr h.holds

/-- A step of a hydration that leaves the records alone. -/
theorem Coherent.advance (h : s.Coherent) (hready : t.Ready) (hcopies : ∀ id, t.copies id = s.copies id)
    (hgeneration : ∀ g, t.hydration.generation = some g → g = t.hydrationGeneration)
    (hpromoted : t.hydration.isPromoted = false → s.hydration.isPromoted = false)
    (hlive : t.hydrated = true ∨ t.hydration.isProjecting = true → s.hydrated = true ∨ s.hydration.isProjecting = true)
    (hholds : t.Holds t.hydration) : t.Coherent where
  ready := hready
  generation := hgeneration
  pairs id := by rw [hcopies]; exact h.pairs id
  backed hp id := by rw [hcopies]; exact h.backed (hpromoted hp) id
  shown hp hl id := by rw [hcopies]; exact h.shown (hpromoted hp) (hlive hl) id
  holds := hholds

theorem Coherent.endHydration (h : s.Coherent) (hp : s.hydration.isPromoted = false) (isLocal : Bool) (generation : Nat) :
    (s.endHydration isLocal generation).Coherent :=
  h.advance ⟨h.ready.fresh, h.ready.memoryFiled, h.ready.cacheFiled⟩ (fun _ => rfl) (fun _ hg => by cases hg)
    (fun _ => hp) (fun hl => hl.imp id fun hl => by cases hl) trivial

/-- The records in memory and in the cache are two copies in order. -/
structure Agreeing (s : AccountVaultReplica) : Prop where
  ready : s.Ready
  pairs : ∀ id, (s.copies id).Pairs CachedEncryptedItem.version
  backed : ∀ id, (s.copies id).Backed CachedEncryptedItem.version
  shown : ∀ id, (s.copies id).Shown CachedEncryptedItem.version

theorem Agreeing.projectNext (h : s.Agreeing) (isLocal : Bool) (itemIds : List String) :
    (s.projectNext isLocal s.hydrationGeneration itemIds).Coherent := by
  have hend : ∀ u : AccountVaultReplica, u.Ready → (∀ id, u.copies id = s.copies id) →
      (u.endHydration isLocal s.hydrationGeneration).Coherent := fun u hu hc =>
    { ready := ⟨hu.fresh, hu.memoryFiled, hu.cacheFiled⟩
      generation := fun _ hg => by cases hg
      pairs := fun id => by have := h.pairs id; rwa [← hc id] at this
      backed := fun _ id => by have := h.backed id; rwa [← hc id] at this
      shown := fun _ _ id => by have := h.shown id; rwa [← hc id] at this
      holds := trivial }
  cases itemIds with
  | nil => exact hend { s with hydrated := true } ⟨h.ready.fresh, h.ready.memoryFiled, h.ready.cacheFiled⟩ fun _ => rfl
  | cons itemId itemIds =>
    simp only [AccountVaultReplica.projectNext]
    split
    · exact hend s h.ready fun _ => rfl
    · have hr := h.ready.refl.rebuild itemId
      have hc : ∀ id, (s.rebuildItemProjection itemId).copies id = s.copies id := copies_rebuild h.ready.fresh itemId
      exact
        { ready := ⟨hr.ready.fresh, hr.ready.memoryFiled, hr.ready.cacheFiled⟩
          generation := fun g hg => by cases hg; exact hr.generation.symm
          pairs := fun id => by have := h.pairs id; rwa [← hc id] at this
          backed := fun _ id => by have := h.backed id; rwa [← hc id] at this
          shown := fun _ _ id => by have := h.shown id; rwa [← hc id] at this
          holds := trivial }

theorem Coherent.agreeing (h : s.Coherent) (hp : s.hydration.isPromoted = false)
    (hlive : s.hydrated = true ∨ s.hydration.isProjecting = true) : s.Agreeing :=
  ⟨h.ready, h.pairs, h.backed hp, h.shown hp hlive⟩

/-- No call still has to write the cache. -/
theorem toBack_empty (h : ∀ n call, s.calls n = some call → call.settles = none) (id : String) :
    (s.copies id).toBack = ∅ ∧ ¬ (s.copies id).removing := by
  refine ⟨Set.eq_empty_of_forall_notMem fun x ⟨n, hn, _⟩ => ?_, fun ⟨n, hn⟩ => ?_⟩
  · cases h n _ hn
  · cases h n _ hn

/-- The memory is replaced by what the cache has. -/
theorem Coherent.replaceItems (h : s.Coherent) {isLocal : Bool} {generation : Nat} {cachedItems : CachedItems}
    (hs : s.hydration = .decrypting isLocal generation cachedItems)
    (halone : ∀ n call, s.calls n = some call → call.settles = none) :
    (s.replaceItems plaintext isLocal generation cachedItems).Coherent := by
  have hg : generation = s.hydrationGeneration := h.generation generation (by rw [hs]; rfl)
  have hcached : cachedItems = s.itemCache := by
    have := h.holds
    rw [hs] at this
    exact this.1
  subst hg hcached
  unfold AccountVaultReplica.replaceItems
  rw [if_neg (by simp)]
  refine Agreeing.projectNext (s := { s with
    items := fun id => (s.itemCache id).bind (decryptItem plaintext), authoritativeItems := s.itemCache }) ?_ isLocal _
  exact
    { ready := ⟨h.ready.fresh, h.ready.cacheFiled, h.ready.cacheFiled⟩
      pairs := fun id => (h.pairs id).replaced (toBack_empty halone id).1 (toBack_empty halone id).2
      backed := fun id => Copies.backed_replaced (c := s.copies id)
      shown := fun id => Copies.shown_replaced (c := s.copies id) }

/-! ### A refresh -/

theorem nodup_eraseDups : ∀ ids : List String, ids.eraseDups.Nodup
  | [] => by simp
  | id :: ids => by
    rw [List.eraseDups_cons, List.nodup_cons, List.mem_eraseDups]
    exact ⟨by simp, nodup_eraseDups _⟩
termination_by ids => ids.length
decreasing_by
  have := List.length_filter_le (fun b => !b == id) ids
  simp only [List.length_cons]
  omega

theorem nodup_conflictBases (h : Filed s.authoritativeItems) : (s.conflictBases.map CachedEncryptedItem.id).Nodup := by
  have hsub : ∀ ids : List String, List.Sublist ((ids.filterMap fun itemId =>
      if s.hasPendingEncryptedCommand itemId then s.authoritativeItems itemId else none).map CachedEncryptedItem.id) ids := by
    intro ids
    induction ids with
    | nil => exact .slnil
    | cons id ids ih =>
      rw [List.filterMap_cons]
      split
      · exact ih.cons id
      · next item hitem =>
        have hid : item.id = id := by
          split at hitem
          · exact h id item hitem
          · cases hitem
        rw [List.map_cons, hid]
        exact ih.cons_cons id
  exact (hsub _).nodup (nodup_eraseDups _)

theorem promoteItem_eq (baseline active staged : Option CachedEncryptedItem) :
    promoteItem baseline active staged = active ∨ promoteItem baseline active staged = staged := by
  unfold promoteItem
  split
  · split
    · exact .inl rfl
    · exact .inr rfl
  · split
    · exact .inl rfl
    · exact .inr rfl

/-- A promoted record is not older than the one it replaces. -/
theorem le_of_promoteItem {baseline staged : Option CachedEncryptedItem} {item y : CachedEncryptedItem}
    (h : promoteItem baseline (some item) staged = some y) : item.version ≤ y.version := by
  unfold promoteItem at h
  simp only at h
  split at h
  · cases h; exact Nat.le_refl _
  · next hkeep =>
    rw [h] at hkeep
    simp only [Option.any_some, Bool.or_eq_true, decide_eq_true_eq, not_or] at hkeep
    omega

theorem filed_stageItems (pageItems : List CachedEncryptedItem) : Filed (stageItems pageItems) := by
  have : ∀ (l : List CachedEncryptedItem) (collection : CachedItems), Filed collection →
      Filed (l.foldl (fun collection item => (writeNewerItem collection item).1) collection) := by
    intro l
    induction l with
    | nil => exact fun _ h => h
    | cons item l ih => exact fun collection h => ih _ (h.writeNewerItem item)
  exact this pageItems _ fun _ _ h => by cases h

/-- A refresh promotes. -/
theorem Coherent.promote (h : s.Coherent) {generation : Nat} {bases : List CachedEncryptedItem} {baseline : CachedItems}
    (hs : s.hydration = .fetching generation bases baseline)
    (halone : ∀ n call, s.calls n = some call → call.writes = none) (pageItems : List CachedEncryptedItem) :
    Coherent { s with
      itemCache := fun id => promoteItem (baseline id) (s.itemCache id) (stageItems pageItems id)
      hydration := .promoted generation bases } where
  ready :=
    { fresh := h.ready.fresh
      memoryFiled := h.ready.memoryFiled
      cacheFiled := fun id item hitem => by
        rcases promoteItem_eq (baseline id) (s.itemCache id) (stageItems pageItems id) with he | he
        · exact h.ready.cacheFiled id item (he.symm.trans hitem)
        · exact filed_stageItems pageItems id item (he.symm.trans hitem) }
  generation g hg := h.generation g (by rw [hs]; exact hg)
  pairs id := by
    refine Copies.Pairs.of_idle (Set.eq_empty_of_forall_notMem ?_) ?_
    · rintro x (⟨n, hn, -⟩ | ⟨n, hn, -⟩)
      · cases halone n _ hn
      · cases halone n _ hn
    · rintro ⟨n, hn⟩
      cases halone n _ hn
  backed hp := by cases hp
  shown hp := by cases hp
  holds := by
    have hbases := h.holds
    rw [hs] at hbases
    refine ⟨hbases, fun id x y hx hy => ?_⟩
    rcases h.backed (by rw [hs]; rfl) id x hx with ⟨z, hz, hle⟩ | ⟨n, hn, -⟩
    · have hy : promoteItem (baseline id) (s.itemCache id) (stageItems pageItems id) = some y := hy
      rw [show s.itemCache id = some z from hz] at hy
      have := le_of_promoteItem hy
      omega
    · cases halone n _ hn

/-- A refresh writes a conflict base back. -/
theorem Coherent.restore (h : s.Coherent) {generation : Nat} {cachedItems : CachedItems} {base : CachedEncryptedItem}
    {missing : List CachedEncryptedItem} (hs : s.hydration = .restoring generation cachedItems (base :: missing))
    (hbase : s.authoritativeItems base.id = none ∨ s.authoritativeItems base.id = some base) :
    Coherent { (s.persistItem base).1 with
      hydration := .restoring generation (Function.update cachedItems base.id (some base)) missing } := by
  have hholds := h.holds
  rw [hs] at hholds
  obtain ⟨rfl, hnodup, hmissing, hahead⟩ := hholds
  have hnone : s.itemCache base.id = none := hmissing base (by simp)
  have hwrite : (writeNewerItem s.itemCache base).1 = Function.update s.itemCache base.id (some base) :=
    writeNewerItem_written (by rw [hnone]; rfl)
  simp only [AccountVaultReplica.persistItem, hwrite]
  rw [List.map_cons, List.nodup_cons] at hnodup
  refine
    { ready := ⟨h.ready.fresh, h.ready.memoryFiled, h.ready.cacheFiled.update fun x hx => by cases hx; rfl⟩
      generation := fun g hg => h.generation g (by rw [hs]; exact hg)
      pairs := fun id => ?_
      backed := fun hp => by cases hp
      shown := fun hp => by cases hp
      holds := ⟨rfl, hnodup.2, fun b hb => ?_, fun id x y hx hy => ?_⟩ }
  · by_cases hid : id = base.id
    · subst hid
      have := (h.pairs base.id).fill (x := base) hnone
      rwa [← copies_setCached base.id (some base)] at this
    · have hc : (s.setCached base.id (some base)).copies id = s.copies id := copies_setCached_of_ne hid
      have := h.pairs id
      rwa [← hc] at this
  · have hb' : b.id ≠ base.id := fun he => hnodup.1 (he ▸ List.mem_map_of_mem hb)
    show Function.update s.itemCache base.id (some base) b.id = none
    rw [Function.update_of_ne hb']
    exact hmissing b (by simp [hb])
  · have hy : Function.update s.itemCache base.id (some base) id = some y := hy
    have hx : s.authoritativeItems id = some x := hx
    by_cases hid : id = base.id
    · subst hid
      rw [Function.update_self] at hy
      rcases hbase with hb | hb
      · rw [hb] at hx; cases hx
      · rw [hb, hy] at hx
        rw [Option.some.inj hx]
    · rw [Function.update_of_ne hid] at hy
      exact hahead id x y hx hy

/-! ## The runs -/

theorem Coherent.proceedHydration (h : s.Coherent) (ha : s.HydratesAlone .resumeHydration)
    (hstep : s.proceedHydration plaintext = some t) : t.Coherent := by
  have hready := h.ready
  unfold AccountVaultReplica.proceedHydration at hstep
  simp only [HydratesAlone] at ha
  split at hstep
  · next g hs =>
    cases hstep
    refine h.advance ⟨hready.fresh, hready.memoryFiled, hready.cacheFiled⟩ (fun _ => rfl)
      (fun g hg => h.generation g (by rw [hs]; exact hg)) (fun _ => by rw [hs]; rfl) (fun hl => hl.imp id fun hl => by cases hl)
      ⟨rfl, fun hl => by cases hl⟩
  · next g bases hs =>
    cases hstep
    have hholds := h.holds
    rw [hs] at hholds
    exact h.advance ⟨hready.fresh, hready.memoryFiled, hready.cacheFiled⟩ (fun _ => rfl)
      (fun g hg => h.generation g (by rw [hs]; exact hg)) (fun _ => by rw [hs]; rfl) (fun hl => hl.imp id fun hl => by cases hl)
      hholds
  · next g bases hs =>
    cases hstep
    have hholds := h.holds
    rw [hs] at hholds
    refine h.advance ⟨hready.fresh, hready.memoryFiled, hready.cacheFiled⟩ (fun _ => rfl)
      (fun g hg => h.generation g (by rw [hs]; exact hg)) (fun hp => by cases hp) (fun hl => hl.imp id fun hl => by cases hl)
      ⟨rfl, hholds.1.sublist (List.filter_sublist.map _), fun base hb => ?_, hholds.2⟩
    simpa using (List.mem_filter.mp hb).2
  · next g cachedItems hs =>
    cases hstep
    have hholds := h.holds
    rw [hs] at hholds
    exact h.advance ⟨hready.fresh, hready.memoryFiled, hready.cacheFiled⟩ (fun _ => rfl)
      (fun g hg => h.generation g (by rw [hs]; exact hg)) (fun hp => by cases hp) (fun hl => hl.imp id fun hl => by cases hl)
      ⟨hholds.1, fun _ => hholds.2.2.2⟩
  · next g cachedItems base missing hs =>
    cases hstep
    rw [hs] at ha
    exact h.restore hs ha
  · next isLocal g cachedItems hs =>
    cases hstep
    rw [hs] at ha
    exact h.replaceItems hs ha
  · next isLocal g awaited itemIds hs =>
    have hg : g = s.hydrationGeneration := h.generation g (by rw [hs]; rfl)
    split at hstep
    · cases hstep
    · rw [if_neg (by simpa using hg)] at hstep
      cases hstep
      rw [hg]
      exact (h.agreeing (by rw [hs]; rfl) (.inr (by rw [hs]; rfl))).projectNext isLocal itemIds
  · cases hstep
  · cases hstep

theorem Coherent.failHydration (h : s.Coherent) (ha : s.hydration.isPromoted = false)
    (hstep : s.failHydration = some t) : t.Coherent := by
  unfold AccountVaultReplica.failHydration at hstep
  split at hstep
  all_goals first | (cases hstep; exact h.endHydration ha _ _) | cases hstep

/-- **An undisturbed step keeps the invariant.** -/
theorem Coherent.step (h : s.Coherent) {a : ReplicaLabel} (ha : s.Undisturbed plaintext a)
    (hstep : s.step plaintext a = some t) : t.Coherent := by
  obtain ⟨hwrites, halone, hsame⟩ := ha
  cases hcall : a.isHydration with
  | false => exact h.callStep (h.ready.callStep hwrites hcall hstep) fun hr => hsame hr hcall t hstep
  | true =>
    have hready := h.ready
    cases a with
    | hydrate =>
      simp only [AccountVaultReplica.step] at hstep
      split at hstep
      · next hs =>
        split at hstep <;> cases hstep
        · exact h
        · exact h.advance ⟨hready.fresh, hready.memoryFiled, hready.cacheFiled⟩ (fun _ => rfl)
            (fun g hg => by cases hg; rfl) (fun _ => by rw [hs]; rfl) (fun hl => hl.imp id fun hl => by cases hl) trivial
      · cases hstep
    | hydrateFromServer =>
      simp only [AccountVaultReplica.step] at hstep
      split at hstep
      · next hs =>
        cases hstep
        exact h.advance ⟨hready.fresh, hready.memoryFiled, hready.cacheFiled⟩ (fun _ => rfl)
          (fun g hg => by cases hg; rfl) (fun _ => by rw [hs]; rfl) (fun hl => hl.imp id fun hl => by cases hl)
          (nodup_conflictBases hready.memoryFiled)
      · cases hstep
    | promote pageItems =>
      simp only [AccountVaultReplica.step] at hstep
      split at hstep
      · next hs => cases hstep; exact h.promote hs halone pageItems
      · cases hstep
    | resumeHydration => exact h.proceedHydration halone hstep
    | rejectHydration => exact h.failHydration halone hstep
    | _ => cases hcall

/-- A record in memory is still there, or a newer one is. -/
def Advances (s t : AccountVaultReplica) (itemId : String) : Prop :=
  ∀ x, s.authoritativeItems itemId = some x → ∃ y, t.authoritativeItems itemId = some y ∧ x.version ≤ y.version

theorem advances_of_eq {itemId : String} (h : t.authoritativeItems itemId = s.authoritativeItems itemId) :
    Advances s t itemId := fun x hx => ⟨x, h.trans hx, Nat.le_refl _⟩

theorem advances_update {itemId id : String} {item : CachedEncryptedItem}
    (h : t.authoritativeItems = Function.update s.authoritativeItems id (some item))
    (hle : ∀ x, s.authoritativeItems id = some x → x.version ≤ item.version) : Advances s t itemId := by
  intro x hx
  by_cases hid : itemId = id
  · subst hid
    exact ⟨item, by rw [h, Function.update_self], hle x hx⟩
  · exact ⟨x, by rw [h, Function.update_of_ne hid, hx], Nat.le_refl _⟩

theorem advances_acknowledge (s : AccountVaultReplica) (command : ItemSyncCommand) (entityId : String) (version : Nat)
    (itemId : String) : Advances s (s.acknowledge command entityId version) itemId ∨
      s.Removes itemId (.acknowledgeItemCommand command entityId (some version)) := by
  unfold AccountVaultReplica.acknowledge
  simp only
  split
  · next hc =>
    by_cases hid : itemId = command.entityId
    · exact .inr (.inl ⟨hc, hid.symm⟩)
    · exact .inl (advances_of_eq (Function.update_of_ne hid ..))
  · next hc =>
    by_cases hid : itemId = entityId
    · exact .inr (.inr ⟨hc, hid.symm⟩)
    · exact .inl (advances_of_eq (Function.update_of_ne hid ..))
  · refine .inl ?_
    split
    · exact advances_of_eq (by rw [rebuild_authoritativeItems]; rfl)
    · next hold =>
      split
      · exact advances_of_eq rfl
      · exact advances_of_eq (by rw [rebuild_authoritativeItems]; rfl)
      · refine advances_update rfl fun x hx => ?_
        rw [show (s.deleteCommand command).authoritativeItems entityId = some x from hx] at hold
        simp only [Option.any_some, decide_eq_true_eq] at hold
        show x.version ≤ version
        omega

theorem advances_proceed {n : Nat} {call : ReplicaCall} (itemId : String) :
    Advances s ((s.release n).proceed plaintext call) itemId := by
  cases call with
  | upserting item =>
    simp only [AccountVaultReplica.proceed]
    split
    · exact advances_of_eq rfl
    · next hnew =>
      have hset : (((s.release n).setAuthoritative item.id (some item)).rebuildItemProjection item.id).authoritativeItems =
          Function.update s.authoritativeItems item.id (some item) := rebuild_authoritativeItems
      refine advances_update hset fun x hx => ?_
      rw [show (s.release n).authoritativeItems item.id = some x from hx] at hnew
      simpa [storedIsNewer] using hnew
  | acknowledging item | removing itemId | preserving command item =>
    exact advances_of_eq (congrFun rebuild_authoritativeItems _)
  | rebuilding itemId projected generation =>
    simp only [AccountVaultReplica.proceed, endRebuild]
    split <;> exact advances_of_eq rfl

theorem projectNext_authoritativeItems (isLocal : Bool) (generation : Nat) (itemIds : List String) :
    (s.projectNext isLocal generation itemIds).authoritativeItems = s.authoritativeItems := by
  unfold AccountVaultReplica.projectNext
  split
  · rfl
  · split
    · rfl
    · exact rebuild_authoritativeItems

theorem Coherent.advances_proceedHydration (h : s.Coherent) (ha : s.HydratesAlone .resumeHydration)
    (hstep : s.proceedHydration plaintext = some t) (itemId : String) :
    Advances s t itemId ∨ s.Removes itemId .resumeHydration := by
  unfold AccountVaultReplica.proceedHydration at hstep
  simp only [HydratesAlone] at ha
  split at hstep
  · cases hstep; exact .inl (advances_of_eq rfl)
  · cases hstep; exact .inl (advances_of_eq rfl)
  · cases hstep; exact .inl (advances_of_eq rfl)
  · cases hstep; exact .inl (advances_of_eq rfl)
  · cases hstep; exact .inl (advances_of_eq rfl)
  · next isLocal g cachedItems hs =>
    have hholds := h.holds
    rw [hs] at ha hholds
    have hg : g = s.hydrationGeneration := h.generation g (by rw [hs]; rfl)
    obtain ⟨rfl, hahead⟩ := hholds
    simp only [AccountVaultReplica.replaceItems, hg, ne_eq, not_true_eq_false, if_false] at hstep
    cases hstep
    have ht : ∀ y, s.itemCache itemId = some y → (AccountVaultReplica.projectNext { s with
        items := fun id => (s.itemCache id).bind (decryptItem plaintext), authoritativeItems := s.itemCache } isLocal
        s.hydrationGeneration (s.pendingCommands.map ItemSyncCommand.entityId).eraseDups).authoritativeItems itemId = some y :=
      fun y hy => (congrFun (projectNext_authoritativeItems ..) itemId).trans hy
    cases isLocal with
    | true =>
      refine .inl fun x hx => ?_
      rcases h.backed (by rw [hs]; rfl) itemId x hx with ⟨y, hy, hle⟩ | hback
      · exact ⟨y, ht y hy, hle⟩
      · rw [(toBack_empty ha itemId).1] at hback
        exact absurd hback (Set.notMem_empty x)
    | false =>
      cases hc : s.itemCache itemId with
      | none => exact .inr ⟨by rw [hs]; rfl, hc⟩
      | some y => exact .inl fun x hx => ⟨y, ht y hc, hahead rfl itemId x y hx hc⟩
  · next isLocal g awaited itemIds hs =>
    have hg : g = s.hydrationGeneration := h.generation g (by rw [hs]; rfl)
    split at hstep
    · cases hstep
    · rw [if_neg (by simpa using hg)] at hstep
      cases hstep
      exact .inl (advances_of_eq (congrFun (projectNext_authoritativeItems ..) itemId))
  · cases hstep
  · cases hstep

theorem Coherent.advances (h : s.Coherent) {a : ReplicaLabel} (ha : s.Undisturbed plaintext a)
    (hstep : s.step plaintext a = some t) (itemId : String) : Advances s t itemId ∨ s.Removes itemId a := by
  cases a with
  | applyItemCommand command =>
    cases hstep
    exact .inl (advances_of_eq (congrFun rebuild_authoritativeItems _))
  | acknowledgeItemCommand command entityId version =>
    cases version with
    | none => cases hstep; exact .inl (advances_of_eq rfl)
    | some version => cases hstep; exact advances_acknowledge s command entityId version itemId
  | preserveItemConflict command =>
    simp only [AccountVaultReplica.step] at hstep
    split at hstep <;> cases hstep <;> exact .inl (advances_of_eq rfl)
  | upsertEncrypted item =>
    simp only [AccountVaultReplica.step, Option.some.injEq] at hstep
    split at hstep <;> subst hstep <;> exact .inl (advances_of_eq rfl)
  | removeCachedItem id =>
    simp only [AccountVaultReplica.step, Option.some.injEq] at hstep
    split at hstep <;> subst hstep
    · exact .inl (advances_of_eq (congrFun rebuild_authoritativeItems _))
    · by_cases hid : itemId = id
      · exact .inr hid.symm
      · exact .inl (advances_of_eq (Function.update_of_ne hid ..))
  | resume n =>
    obtain ⟨call, -, rfl⟩ := Option.map_eq_some_iff.mp hstep
    exact .inl (advances_proceed itemId)
  | reject n =>
    obtain ⟨call, -, hstep⟩ := Option.bind_eq_some_iff.mp hstep
    split at hstep <;> cases hstep
    exact .inl (advances_of_eq rfl)
  | hydrate | hydrateFromServer | promote =>
    simp only [AccountVaultReplica.step] at hstep
    split at hstep
    · first | (split at hstep <;> cases hstep <;> exact .inl (advances_of_eq rfl)) | (cases hstep; exact .inl (advances_of_eq rfl))
    · cases hstep
  | resumeHydration => exact h.advances_proceedHydration ha.2.1 hstep itemId
  | rejectHydration =>
    simp only [AccountVaultReplica.step, AccountVaultReplica.failHydration] at hstep
    split at hstep
    all_goals first | (cases hstep; exact .inl (advances_of_eq rfl)) | cases hstep

/-- **Hydration does not roll the replica back**: in every run of undisturbed steps, whenever no
call is in progress and the replica is hydrated, each record in memory is the one in the cache,
and no step replaces a record in memory by an older one, or takes it away unless it removes it. -/
theorem hydration_never_rolls_back (h : (accountVaultReplica plaintext).ReachableUnder (Undisturbed plaintext) s) :
    (s.Quiet → s.hydrated = true → ∀ itemId, s.authoritativeItems itemId = s.itemCache itemId) ∧
      ∀ a t, s.Undisturbed plaintext a → s.step plaintext a = some t →
        ∀ itemId, s.Advances t itemId ∨ s.Removes itemId a := by
  have hc : s.Coherent :=
    h.invariant Coherent (fun _ hs => AtRest.coherent hs) fun _ _ _ _ hI hC hs => hI.step hC hs
  refine ⟨fun hquiet hhydrated itemId => ?_, fun a t ha hstep => hc.advances ha hstep⟩
  have hp : s.hydration.isPromoted = false := by rw [hquiet.2]; rfl
  have hcalls : ∀ n call, s.calls n ≠ some call := fun n call hn => by rw [hquiet.1 n] at hn; cases hn
  refine Copies.eq_of_settled (hc.backed hp itemId) (hc.shown hp (.inl hhydrated) itemId) ?_ ?_ ?_
  · exact Set.eq_empty_of_forall_notMem fun x ⟨n, hn, _⟩ => hcalls _ _ hn
  · exact Set.eq_empty_of_forall_notMem fun x ⟨n, hn, _⟩ => hcalls _ _ hn
  · exact fun ⟨n, hn⟩ => hcalls _ _ hn

/-- A hydration, and a newer record after it. -/
theorem hydration_never_rolls_back_upsert_after :
    ∃ s, (accountVaultReplica fun item => some item.encryptedData).ReachableUnder (Undisturbed fun item => some item.encryptedData) s ∧
      s.itemCache "item" = some (clearItem 2 "two") ∧ s.authoritativeItems "item" = s.itemCache "item" := by
  have h1 := System.ReachableUnder.step (M := accountVaultReplica fun item => some item.encryptedData)
    (C := Undisturbed fun item => some item.encryptedData) .hydrate (.init restingReplica_atRest)
    ⟨trivial, trivial, fun h => by cases h⟩ rfl
  have h2 := h1.step ReplicaLabel.resumeHydration ⟨trivial, trivial, fun h => by cases h⟩ rfl
  have h3 := h2.step ReplicaLabel.resumeHydration
    ⟨trivial, (fun n call hc => by cases hc), (fun _ h => by cases h)⟩ rfl
  have h4 := h3.step (ReplicaLabel.upsertEncrypted (clearItem 2 "two"))
    ⟨(fun n call hc => by cases hc), trivial, (fun h => by cases h)⟩ rfl
  have h5 := h4.step (ReplicaLabel.resume 1) ⟨trivial, trivial, fun h => by cases h⟩ rfl
  have h6 := h5.step (ReplicaLabel.resume 2) ⟨trivial, trivial, fun h => by cases h⟩ rfl
  exact ⟨_, h6, by decide +kernel, (hydration_never_rolls_back h6).1
    ⟨fun n => by rcases n with _ | _ | _ | n <;> rfl, rfl⟩ rfl "item"⟩

/-- A hydration that has read the cache before a newer record is written replaces that record in
memory by the older one. -/
theorem stale_hydration_rolls_back :
    ∃ s t, (accountVaultReplica fun item => some item.encryptedData).Reachable s ∧
      s.step (fun item => some item.encryptedData) .resumeHydration = some t ∧
      s.authoritativeItems "item" = some (clearItem 2 "two") ∧ t.authoritativeItems "item" = some (clearItem 1 "one") ∧
      t.Quiet ∧ t.hydrated = true ∧ t.authoritativeItems "item" ≠ t.itemCache "item" := by
  have hrun : (accountVaultReplica fun item => some item.encryptedData).run restingReplica
    [.hydrate, .resumeHydration, .upsertEncrypted (clearItem 2 "two"), .resume 1, .resume 2] = some _ := rfl
  refine ⟨_, _, System.Reachable.run (.init restingReplica_atRest) hrun, rfl, ?_, ?_, ⟨fun n => ?_, rfl⟩, rfl, ?_⟩
  · decide +kernel
  · decide +kernel
  · rcases n with _ | _ | _ | n <;> rfl
  · decide +kernel

end AccountVaultReplica

end Bittery
