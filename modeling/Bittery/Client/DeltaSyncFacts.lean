/-
What processing one event does to one item of the replica, one lemma for each operation.
-/
import Bittery.Client.DeltaSync
import Bittery.Server.ItemsFacts

namespace Bittery

open Lib

variable {db : Db} {userId itemId vaultId : String} {r : Replica}

/-! ## The server's answers -/

theorem serverView_items {item : Item} : (serverView db userId).items itemId = some item ↔
    db.items.get? itemId = some item ∧ db.holdsKey userId item.vaultId = true := by
  simp [serverView, Option.filter_eq_some_iff]

/-- An item of the view is answered. -/
theorem getVaultItem_of_view {item : Item} (h : (serverView db userId).items itemId = some item) :
    getVaultItem db userId itemId = .ok item := by
  obtain ⟨hrow, hkey⟩ := serverView_items.mp h
  simp only [getVaultItem, Except.bind_ok_iff, Except.pure_ok_iff]
  exact ⟨item, by simp [loadItemRow, hrow], ⟨⟩, by simp [assertItemReadAccess, hkey], rfl⟩

theorem loadVaultAccess_of_holdsKey (h : db.holdsKey userId vaultId = true) :
    ∃ role, loadVaultAccess db vaultId userId = .ok role := by
  unfold loadVaultAccess
  split
  · exact ⟨_, rfl⟩
  · next hnone =>
    obtain ⟨k, hk, hv, hu⟩ := Db.holdsKey_iff.mp h
    exact absurd (List.find?_eq_none.mp hnone k hk) (by simp [hv, hu])

theorem listVaultItems_of_holdsKey (h : db.holdsKey userId vaultId = true) :
    listVaultItems db userId vaultId = .ok (db.items.select fun i => i.vaultId = vaultId && i.deletedAt.isNone) := by
  obtain ⟨role, hrole⟩ := loadVaultAccess_of_holdsKey h
  simp only [listVaultItems, hrole]
  rfl

theorem getVault_of_holdsKey (h : db.holdsKey userId vaultId = true) (hv : db.hasVault vaultId = true) :
    ∃ v, db.vaults.get? vaultId = some v ∧ getVault db userId vaultId = .ok v.summary := by
  obtain ⟨v, hget⟩ := Option.isSome_iff_exists.mp hv
  exact ⟨v, hget, by simp only [getVault, hget, h, if_true]⟩

/-! ## One item of the replica -/

/-- The copy of an item is not newer than an item of the server. -/
def Replica.NotNewer (r : Replica) (item : Item) : Prop := ∀ stored, r.items item.id = some stored → stored.version ≤ item.version

theorem upsertItem_self {item : Item} (h : r.NotNewer item) : (r.upsertItem item).items item.id = some item := by
  have hno : (r.items item.id).any (fun stored => decide (item.version < stored.version)) = false := by
    cases hs : r.items item.id with
    | none => rfl
    | some stored =>
      have := h stored hs
      simp only [Option.any_some, decide_eq_false_iff_not]
      omega
  simp [Replica.upsertItem, hno]

theorem upsertItem_of_ne {item : Item} (h : itemId ≠ item.id) : (r.upsertItem item).items itemId = r.items itemId := by
  unfold Replica.upsertItem
  split
  · rfl
  · simp [h]

theorem upsertItems_of_not_mem : ∀ {items : List Item} {r : Replica}, itemId ∉ items.map (·.id) →
    (r.upsertItems items).items itemId = r.items itemId
  | [], _, _ => rfl
  | item :: items, r, h => by
    rw [List.map_cons, List.mem_cons, not_or] at h
    show ((r.upsertItem item).upsertItems items).items itemId = _
    rw [upsertItems_of_not_mem h.2, upsertItem_of_ne h.1]

theorem upsertItems_of_mem : ∀ {items : List Item} {r : Replica} {item : Item}, item ∈ items →
    (items.map (·.id)).Nodup → r.NotNewer item → (r.upsertItems items).items item.id = some item
  | first :: items, r, item, hmem, hnd, hnew => by
    rw [List.map_cons, List.nodup_cons] at hnd
    show ((r.upsertItem first).upsertItems items).items item.id = _
    rcases List.mem_cons.mp hmem with rfl | hmem
    · rw [upsertItems_of_not_mem hnd.1, upsertItem_self hnew]
    · have hne : item.id ≠ first.id := fun he => hnd.1 (he ▸ List.mem_map_of_mem hmem)
      exact upsertItems_of_mem hmem hnd.2 fun stored hs => hnew stored (by rwa [upsertItem_of_ne hne] at hs)

/-! ## One event -/

theorem reconcileCurrentItem_view {item : Item} (h : (serverView db userId).items itemId = some item) :
    reconcileCurrentItem db userId itemId r = .ok (r.upsertItem item) := by
  unfold reconcileCurrentItem
  rw [getVaultItem_of_view h]

theorem refreshVaultItems_of_holdsKey (h : db.holdsKey userId vaultId = true) :
    refreshVaultItems db userId vaultId r =
      .ok (r.upsertItems (db.items.select fun i => i.vaultId = vaultId && i.deletedAt.isNone)) := by
  unfold refreshVaultItems
  rw [listVaultItems_of_holdsKey h]
  rfl

theorem select_items_nodup (p : Item → Bool) : ((db.items.select p).map (·.id)).Nodup :=
  db.items.nodup.sublist (List.filter_sublist.map _)

/-- The types whose processing asks for the one item they name. -/
def SyncEventType.refetchesItem : SyncEventType → Bool
  | .itemCreated | .itemUpdated | .itemRestored | .itemMoved | .itemDeleted => true
  | _ => false

theorem performDeltaSync_refetch {e : SyncEvent} (h : e.eventType.refetchesItem = true) :
    performDeltaSync db userId r e = reconcileCurrentItem db userId e.entityId r := by
  have hsync : e.syncsVaultKeys = false := by
    unfold SyncEvent.syncsVaultKeys SyncEvent.isBulkImport
    cases ht : e.eventType <;> rw [ht] at h <;> first | rfl | cases h
  unfold performDeltaSync
  rw [hsync]
  cases ht : e.eventType <;> rw [ht] at h <;> first | rfl | cases h

theorem performDeltaSync_permanentlyDeleted {e : SyncEvent} (h : e.eventType = .itemPermanentlyDeleted) :
    performDeltaSync db userId r e = .ok (r.removeItem e.entityId) := by
  have hsync : e.syncsVaultKeys = false := by
    unfold SyncEvent.syncsVaultKeys SyncEvent.isBulkImport
    rw [h]; rfl
  unfold performDeltaSync
  rw [hsync, h]
  rfl

/-- The event of an import fetches the items of its vault, and leaves the others. -/
theorem performDeltaSync_bulkImport {e : SyncEvent} {count : Nat} (ht : e.eventType = .vaultUpdated)
    (hm : e.metadata = some (.bulkImport count)) (he : e.entityId = vaultId) (hv : e.vaultId = some vaultId)
    (hkey : db.holdsKey userId vaultId = true) (hvault : db.hasVault vaultId = true) :
    ∃ v, performDeltaSync db userId r e = .ok (((r.syncVaultKeys (listVaults db userId)).upsertItems
      (db.items.select fun i => i.vaultId = vaultId && i.deletedAt.isNone)).upsertVault v) := by
  have hbulk : e.isBulkImport = true := by unfold SyncEvent.isBulkImport; rw [ht, hm]; rfl
  have hsync : e.syncsVaultKeys = true := by unfold SyncEvent.syncsVaultKeys; rw [ht, hbulk]
  have htarget : e.targetVaultId = vaultId := by rw [SyncEvent.targetVaultId, hv]; rfl
  obtain ⟨v, -, hget⟩ := getVault_of_holdsKey hkey hvault
  refine ⟨v.summary, ?_⟩
  unfold performDeltaSync
  simp only [hsync, ht, hbulk, if_true, htarget, refreshVaultItems_of_holdsKey hkey, he, hget]
  rfl

end Bittery
