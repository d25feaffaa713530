/-
What an accepted item request has done, one lemma for each function, and for the whole
family at once: it has inserted rows of one vault, or rewritten or deleted the one row it
names at the version it expected, and it has recorded one event. Vault keys and vaults
are left alone.
-/
import Bittery.Lib.Except
import Bittery.Server.Items

namespace Bittery

open Lib

variable {db db' seen acl : Db} {userId vaultId itemId : String}

/-! ## The shared statements -/

theorem insertSyncEvent_ok {eventType : SyncEventType} {entityId : String} {entityType : SyncEntityType}
    {version : Nat} {clientId : Option String} {metadata : Option EventMetadata}
    (h : db.insertSyncEvent eventType entityId entityType vaultId userId version clientId metadata = .ok db') :
    db.hasVault vaultId = true ∧
      db' = db.appendEvent ⟨0, eventType, entityId, entityType, some vaultId, userId, version, clientId, metadata⟩ := by
  simp only [Db.insertSyncEvent] at h
  split at h
  · next hv => cases h; exact ⟨hv, rfl⟩
  · cases h

theorem loadItemRow_ok {row : Item} (h : loadItemRow db itemId = .ok row) : db.items.get? itemId = some row := by
  simp only [loadItemRow] at h
  split at h
  · next hr => cases h; exact hr
  · cases h

theorem loadVaultAccess_ok {role : VaultRole} (h : loadVaultAccess db vaultId userId = .ok role) :
    ∃ k ∈ db.vaultKeys, k.vaultId = vaultId ∧ k.userId = userId ∧ k.role = role := by
  simp only [loadVaultAccess] at h
  split at h
  · next k hk =>
    cases h
    have hp := List.find?_some hk
    simp only [Bool.and_eq_true, decide_eq_true_eq] at hp
    exact ⟨k, List.mem_of_find?_eq_some hk, hp.1, hp.2, rfl⟩
  · cases h

theorem requireWrite_ok {message : String} (h : requireWrite acl userId vaultId message = .ok ⟨⟩) :
    acl.holdsKey userId vaultId = true := by
  simp only [requireWrite, Except.bind_ok_iff] at h
  obtain ⟨role, hr, -⟩ := h
  obtain ⟨k, hk, hv, hu, -⟩ := loadVaultAccess_ok hr
  exact Db.holdsKey_iff.mpr ⟨k, hk, hv, hu⟩

theorem insertItem_ok {row : Item} {context : String} (h : insertItem db row context = .ok db') :
    db.hasVault row.vaultId = true ∧ ∃ items, db.items.insert row = some items ∧ db' = { db with items := items } := by
  simp only [insertItem] at h
  split at h
  · next hv =>
    split at h
    · next items hi => cases h; exact ⟨hv, items, hi, rfl⟩
    · cases h
  · cases h

/-! ## One lemma for each request -/

theorem createVaultItem_ok {input : CreateItemInput} (h : createVaultItem acl db userId input = .ok db') :
    acl.holdsKey userId input.vaultId = true ∧ db.hasVault input.vaultId = true ∧
      ∃ items, db.items.insert (newItem userId input.vaultId false input) = some items ∧
        db' = { db with items := items }.appendEvent
          ⟨0, .itemCreated, input.itemId, .item, some input.vaultId, userId, 1, input.clientId, none⟩ := by
  simp only [createVaultItem, Except.bind_ok_iff] at h
  obtain ⟨⟨⟩, ha, db₁, hi, he⟩ := h
  obtain ⟨hv, items, hins, rfl⟩ := insertItem_ok hi
  obtain ⟨-, rfl⟩ := insertSyncEvent_ok he
  exact ⟨requireWrite_ok ha, hv, items, hins, rfl⟩

/-- The rows an import inserts. -/
def importedItems (userId : String) (input : BulkImportItemsInput) : List Item :=
  input.items.map fun i => newItem userId input.vaultId (i.favorite.getD false) i.item

/-- An import that does something inserts its rows, each with a key that was free. -/
theorem bulkImportVaultItems_ok {input : BulkImportItemsInput} (h : bulkImportVaultItems acl db userId input = .ok db') :
    acl.holdsKey userId input.vaultId = true ∧ (db' = db ∨ input.items ≠ [] ∧ db.hasVault input.vaultId = true ∧
      ∃ items : Table Item.id, items.rows = db.items.rows ++ importedItems userId input ∧
        db' = { db with items := items }.appendEvent ⟨0, .vaultUpdated, input.vaultId, .vault, some input.vaultId,
          userId, 1, input.clientId, some (.bulkImport input.items.length)⟩) := by
  simp only [bulkImportVaultItems, Except.bind_ok_iff] at h
  obtain ⟨⟨⟩, ha, h⟩ := h
  refine ⟨requireWrite_ok ha, ?_⟩
  split at h
  · exact .inl (Except.pure_ok_iff.mp h).symm
  next hne =>
  simp only [Except.guard_ok_iff, Except.bind_ok_iff] at h
  obtain ⟨-, -, db₁, hfold, he⟩ := h
  obtain ⟨hv, rfl⟩ := insertSyncEvent_ok he
  -- After the rows `done` the table has them at its end and nothing else has changed.
  let I : List BulkImportItem → Db → Prop := fun done d =>
    ∃ items : Table Item.id, items.rows = db.items.rows ++
      done.map (fun i => newItem userId input.vaultId (i.favorite.getD false) i.item) ∧ d = { db with items := items }
  have hI : I ([] ++ input.items) db₁ := by
    refine Except.foldlM_ok I ?_ ⟨db.items, by simp, rfl⟩ hfold
    rintro done i d d' ⟨items, hrows, rfl⟩ hstep
    obtain ⟨-, items', hins, rfl⟩ := insertItem_ok hstep
    refine ⟨items', ?_, rfl⟩
    rw [Table.insert_rows hins, hrows, List.map_append, List.append_assoc]; rfl
  obtain ⟨items, hrows, rfl⟩ := hI
  exact .inr ⟨by simpa using hne, hv, items, hrows, rfl⟩

/-- What an accepted request on an existing item has read, and the row it has written. -/
structure ItemMutation.Accepted (m : ItemMutation) (seen acl db : Db) (userId : String) (existing row : Item) : Prop where
  read : seen.items.get? m.itemId = some existing
  precheck : m.precheck existing = .ok ⟨⟩
  writable : ∀ v ∈ m.writable existing, acl.holdsKey userId v.1 = true
  found : db.items.get? m.itemId = some row
  version : row.version = m.expectedVersion.getD existing.version
  vault : ∀ row', m.write row = some row' → row'.vaultId ≠ row.vaultId → db.hasVault row'.vaultId = true
  eventVault : (writeRow db row (m.write row)).hasVault (m.eventVault existing) = true

/-- The event of a request that read `existing` and wrote `row`. -/
def ItemMutation.event (m : ItemMutation) (userId : String) (existing row : Item) : SyncEvent :=
  ⟨0, m.eventType, m.itemId, .item, some (m.eventVault existing), userId, row.version + 1, m.clientId, m.metadata⟩

theorem ItemMutation.run_ok {m : ItemMutation} {version : Nat} (h : m.run seen acl db userId = .ok (db', version)) :
    ∃ existing row, m.Accepted seen acl db userId existing row ∧ version = row.version + 1 ∧
      db' = (writeRow db row (m.write row)).appendEvent (m.event userId existing row) := by
  simp only [ItemMutation.run, Except.bind_ok_iff] at h
  obtain ⟨existing, hseen, ⟨⟩, hpre, ⟨⟩, hacc, h⟩ := h
  split at h
  · cases h
  next row hrow =>
  simp only [Except.guard_ok_iff, Except.bind_ok_iff, Except.pure_ok_iff, Prod.mk.injEq] at h
  obtain ⟨hver, hfk, db₁, he, rfl, rfl⟩ := h
  obtain ⟨hev, rfl⟩ := insertSyncEvent_ok he
  refine ⟨existing, row, ?_, rfl, rfl⟩
  refine ⟨loadItemRow_ok hseen, hpre, fun v hv => requireWrite_ok (Except.forM_ok hacc v hv), hrow,
    not_not.mp hver, fun row' hw hne => ?_, hev⟩
  have hall := not_not.mp hfk
  rw [hw] at hall
  simpa [hne] using hall

theorem ItemRequest.run_mutation {r : ItemRequest} {m : ItemMutation} (hm : r.mutation userId = some m)
    (h : r.run seen acl db userId = .ok db') : ∃ version, m.run seen acl db userId = .ok (db', version) := by
  have hrun : (m.run seen acl db userId).map Prod.fst = .ok db' := by
    rw [← h]
    cases r <;> cases hm <;> rfl
  obtain ⟨⟨_, version⟩, hok, rfl⟩ := Except.map_ok_iff.mp hrun
  exact ⟨version, hok⟩

/-! ## The rows after a request -/

theorem mem_writeRow_some {row row' x : Item} : x ∈ (writeRow db row (some row')).items ↔
    ∃ r ∈ db.items, (if r.id = row.id then { row' with id := r.id } else r) = x := by
  simp only [writeRow, Table.mem_updateWhere, decide_eq_true_eq]

theorem get?_writeRow_some {row row' : Item} {id : String} (hrow : db.items.get? row.id = some row)
    (hid : row'.id = row.id) :
    (writeRow db row (some row')).items.get? id = if id = row.id then some row' else db.items.get? id := by
  rw [writeRow, Table.get?_updateWhere]
  by_cases h : id = row.id
  · subst h
    rw [if_pos rfl, hrow, Option.map_some, if_pos (decide_eq_true rfl), ← hid]
  · rw [if_neg h]
    cases hq : db.items.get? id with
    | none => rfl
    | some q =>
      have : q.id ≠ row.id := (Table.key_of_get? hq).symm ▸ h
      simp [this]

theorem get?_writeRow_none {row : Item} {id : String} :
    (writeRow db row none).items.get? id = if id = row.id then none else db.items.get? id := by
  rw [writeRow, Table.get?_deleteWhere]
  by_cases h : id = row.id
  · subst h
    rw [if_pos rfl]
    cases hq : db.items.get? row.id with
    | none => rfl
    | some q =>
      have : q.id = row.id := Table.key_of_get? hq
      simp [Option.filter, this]
  · rw [if_neg h]
    cases hq : db.items.get? id with
    | none => rfl
    | some q =>
      have : q.id ≠ row.id := (Table.key_of_get? hq).symm ▸ h
      simp [Option.filter, this]

theorem writeRow_vaultKeys {row : Item} (w : Option Item) : (writeRow db row w).vaultKeys = db.vaultKeys := by
  cases w <;> rfl

theorem writeRow_vaults {row : Item} (w : Option Item) : (writeRow db row w).vaults = db.vaults := by
  cases w <;> rfl

theorem writeRow_events {row : Item} (w : Option Item) :
    (writeRow db row w).events = db.events ∧ (writeRow db row w).nextSeq = db.nextSeq := by
  cases w <;> exact ⟨rfl, rfl⟩

/-- Every request on an existing item keeps the id of the row and counts its version up. -/
theorem ItemRequest.mutation_write {r : ItemRequest} {m : ItemMutation} (hm : r.mutation userId = some m) {row row' : Item}
    (hw : m.write row = some row') : row'.id = row.id ∧ row'.version = row.version + 1 := by
  cases r <;> simp only [ItemRequest.mutation, Option.some.injEq, reduceCtorEq] at hm <;> subst hm <;>
    simp only [updateVaultItem, toggleVaultFavorite, deleteVaultItem, restoreVaultItem, moveVaultItem,
      permanentlyDeleteVaultItem, Option.some.injEq, reduceCtorEq] at hw <;> subst hw <;> exact ⟨rfl, rfl⟩

end Bittery
