/-
What the transactions that rotate no vault do to vaults, rotation plans and ciphertexts.

They are sequences of a few statements, and each statement keeps what they all keep: a
vault has the key version it had, a plan is as it was, and a ciphertext is one that was
there or one the transaction was given, filed under a vault there was. `Keeps` says so and
is transitive; `W` and `A` are the ciphertexts of items and the keys of attachments the
transaction was given, each with its vault.
-/
import Bittery.Server.History
import Bittery.Server.ItemsFacts
import Bittery.Server.Rotation.PlansFacts

namespace Bittery

open Lib

/-- A request that commits has seen a database of the history. -/
theorem History.ran {h : History} {n : Nat} {f : Db → Except AppError Db} {db' : Db}
    (hrun : (do (f (← h.ago n)).toOption) = some db') : ∃ db, h.ago n = some db ∧ f db = .ok db' := by
  simpa only [Option.bind_eq_bind, Option.bind_eq_some_iff, Except.toOption_eq_some_iff] using hrun

theorem History.ran₂ {h : History} {n m : Nat} {f : Db → Db → Except AppError Db} {db' : Db}
    (hrun : (do (f (← h.ago n) (← h.ago m)).toOption) = some db') :
    ∃ db, h.ago n = some db ∧ ∃ db₁, h.ago m = some db₁ ∧ f db db₁ = .ok db' := by
  simpa only [Option.bind_eq_bind, Option.bind_eq_some_iff, Except.toOption_eq_some_iff] using hrun

structure Keeps (W A : String → String → Prop) (db db' : Db) : Prop where
  plans : ∀ p ∈ db'.plans, p ∈ db.plans
  vaults : ∀ v' ∈ db'.vaults, ∃ v ∈ db.vaults, v.id = v'.id ∧ v.keyVersion = v'.keyVersion
  items : ∀ i' ∈ db'.items, (∃ i ∈ db.items, i.id = i'.id ∧ i.vaultId = i'.vaultId ∧ i.encryptedData = i'.encryptedData) ∨
    W i'.vaultId i'.encryptedData ∧ db.hasVault i'.vaultId = true
  attachments : ∀ a' ∈ db'.attachments, (∃ a ∈ db.attachments, a.id = a'.id ∧ a.vaultId = a'.vaultId ∧
      a.encryptedAttachmentKey = a'.encryptedAttachmentKey) ∨
    A a'.vaultId a'.encryptedAttachmentKey ∧ db.hasVault a'.vaultId = true
  referential : db.Referential → db'.Referential

namespace Keeps

variable {W A : String → String → Prop} {db db' db'' : Db}

theorem hasVault (h : Keeps W A db db') {vaultId : String} (hv : db'.hasVault vaultId = true) :
    db.hasVault vaultId = true := by
  obtain ⟨v', hv', rfl⟩ := Db.hasVault_iff.mp hv
  obtain ⟨v, hv, hid, -⟩ := h.vaults v' hv'
  exact Db.hasVault_iff.mpr ⟨v, hv, hid⟩

theorem trans (h : Keeps W A db db') (h' : Keeps W A db' db'') : Keeps W A db db'' := by
  refine ⟨fun p hp => h.plans p (h'.plans p hp), fun v'' hv'' => ?_, fun i'' hi'' => ?_, fun a'' ha'' => ?_,
    fun hr => h'.referential (h.referential hr)⟩
  · obtain ⟨v', hv', hid', hk'⟩ := h'.vaults v'' hv''
    obtain ⟨v, hv, hid, hk⟩ := h.vaults v' hv'
    exact ⟨v, hv, hid.trans hid', hk.trans hk'⟩
  · rcases h'.items i'' hi'' with ⟨i', hi', hid', hv', hd'⟩ | ⟨hW, hv⟩
    · rcases h.items i' hi' with ⟨i, hi, hid, hv, hd⟩ | ⟨hW, hv⟩
      · exact .inl ⟨i, hi, hid.trans hid', hv.trans hv', hd.trans hd'⟩
      · rw [hv', hd'] at hW
        rw [hv'] at hv
        exact .inr ⟨hW, hv⟩
    · exact .inr ⟨hW, h.hasVault hv⟩
  · rcases h'.attachments a'' ha'' with ⟨a', ha', hid', hv', hd'⟩ | ⟨hA, hv⟩
    · rcases h.attachments a' ha' with ⟨a, ha, hid, hv, hd⟩ | ⟨hA, hv⟩
      · exact .inl ⟨a, ha, hid.trans hid', hv.trans hv', hd.trans hd'⟩
      · rw [hv', hd'] at hA
        rw [hv'] at hv
        exact .inr ⟨hA, hv⟩
    · exact .inr ⟨hA, h.hasVault hv⟩

/-- A statement that touches none of these rows. -/
theorem of_eq (hp : db'.plans = db.plans) (hv : db'.vaults = db.vaults) (hi : db'.items = db.items)
    (ha : db'.attachments = db.attachments) (hk : db'.vaultKeys = db.vaultKeys)
    (hu : ∀ u, (db.users.get? u).isSome = true → (db'.users.get? u).isSome = true) : Keeps W A db db' := by
  have hhas : ∀ v, db'.hasVault v = db.hasVault v := fun v => by unfold Db.hasVault; rw [hv]
  refine ⟨fun p h => hp ▸ h, fun v h => ⟨v, hv ▸ h, rfl, rfl⟩, fun i h => .inl ⟨i, hi ▸ h, rfl, rfl, rfl⟩,
    fun a h => .inl ⟨a, ha ▸ h, rfl, rfl, rfl⟩, fun hr => ⟨?_, ?_, ?_, ?_⟩⟩
  · intro i h; rw [hhas]; exact hr.items i (hi ▸ h)
  · intro a h; rw [hhas]; exact hr.attachments a (ha ▸ h)
  · intro k h; rw [hhas]; exact hr.keys k (hk ▸ h)
  · intro k h; exact hu _ (hr.users k (hk ▸ h))

theorem refl (db : Db) : Keeps W A db db := of_eq rfl rfl rfl rfl rfl fun _ h => h

theorem appendEvent (db : Db) (e : SyncEvent) : Keeps W A db (db.appendEvent e) :=
  of_eq rfl rfl rfl rfl rfl fun _ h => h

theorem insertSyncEvent {eventType : SyncEventType} {entityId : String} {entityType : SyncEntityType}
    {vaultId userId : String} {version : Nat} {clientId : Option String} {metadata : Option EventMetadata}
    (h : db.insertSyncEvent eventType entityId entityType vaultId userId version clientId metadata = .ok db') :
    Keeps W A db db' := by
  obtain ⟨-, rfl⟩ := insertSyncEvent_ok h
  exact appendEvent ..

/-- A statement that deletes rows: what is left was there, and what it refers to is left too. -/
theorem of_subset (hp : ∀ p ∈ db'.plans, p ∈ db.plans) (hv : ∀ v ∈ db'.vaults, v ∈ db.vaults)
    (hi : ∀ i ∈ db'.items, i ∈ db.items) (ha : ∀ a ∈ db'.attachments, a ∈ db.attachments)
    (hr : db.Referential → db'.Referential) : Keeps W A db db' :=
  ⟨hp, fun v h => ⟨v, hv v h, rfl, rfl⟩, fun i h => .inl ⟨i, hi i h, rfl, rfl, rfl⟩,
    fun a h => .inl ⟨a, ha a h, rfl, rfl, rfl⟩, hr⟩

/-! ## Statements on items and attachments -/

theorem items_replaced {items : Table Item.id} (hi : ∀ i' ∈ items, (∃ i ∈ db.items, i.id = i'.id ∧
      i.vaultId = i'.vaultId ∧ i.encryptedData = i'.encryptedData) ∨
      W i'.vaultId i'.encryptedData ∧ db.hasVault i'.vaultId = true) : Keeps W A db { db with items := items } := by
  refine ⟨fun _ h => h, fun v h => ⟨v, h, rfl, rfl⟩, hi, fun a h => .inl ⟨a, h, rfl, rfl, rfl⟩, fun hr => ?_⟩
  refine ⟨fun i' h => ?_, hr.attachments, hr.keys, hr.users⟩
  show db.hasVault i'.vaultId = true
  rcases hi i' h with ⟨i, hi, -, hv, -⟩ | ⟨-, hv⟩
  · rw [← hv]; exact hr.items i hi
  · exact hv

theorem attachments_replaced {attachments : Table ItemAttachment.id} (ha : ∀ a' ∈ attachments,
      (∃ a ∈ db.attachments, a.id = a'.id ∧ a.vaultId = a'.vaultId ∧
        a.encryptedAttachmentKey = a'.encryptedAttachmentKey) ∨
      A a'.vaultId a'.encryptedAttachmentKey ∧ db.hasVault a'.vaultId = true) :
    Keeps W A db { db with attachments := attachments } := by
  refine ⟨fun _ h => h, fun v h => ⟨v, h, rfl, rfl⟩, fun i h => .inl ⟨i, h, rfl, rfl, rfl⟩, ha, fun hr => ?_⟩
  refine ⟨hr.items, fun a' h => ?_, hr.keys, hr.users⟩
  show db.hasVault a'.vaultId = true
  rcases ha a' h with ⟨a, ha, -, hv, -⟩ | ⟨-, hv⟩
  · rw [← hv]; exact hr.attachments a ha
  · exact hv

theorem insertItem {row : Item} {context : String} (h : Bittery.insertItem db row context = .ok db')
    (hW : W row.vaultId row.encryptedData) : Keeps W A db db' := by
  obtain ⟨hv, items, hins, rfl⟩ := insertItem_ok h
  refine items_replaced fun i' hi' => ?_
  rcases (Table.mem_insert hins i').mp hi' with hi | rfl
  · exact .inl ⟨i', hi, rfl, rfl, rfl⟩
  · exact .inr ⟨hW, hv⟩

/-- A row rewritten in place keeps its vault and its ciphertext, or has the given ones. -/
theorem writeRow {row : Item} {w : Option Item} (hrow : row ∈ db.items)
    (hw : ∀ row', w = some row' → row'.vaultId = row.vaultId ∧ row'.encryptedData = row.encryptedData ∨
      W row'.vaultId row'.encryptedData ∧ db.hasVault row'.vaultId = true) : Keeps W A db (writeRow db row w) := by
  cases w with
  | none =>
    refine of_subset (fun _ h => h) (fun _ h => h) (fun i h => (Table.mem_deleteWhere.mp h).1)
      (fun a h => (Table.mem_deleteWhere.mp h).1) fun hr => ⟨fun i h => ?_, fun a h => ?_, hr.keys, hr.users⟩
    · exact hr.items i (Table.mem_deleteWhere.mp h).1
    · exact hr.attachments a (Table.mem_deleteWhere.mp h).1
  | some row' =>
    refine items_replaced fun i' hi' => ?_
    obtain ⟨r, hr, he⟩ := Table.mem_updateWhere.mp hi'
    by_cases hid : decide (r.id = row.id) = true
    · rw [if_pos hid] at he
      subst he
      have hr' : r = row := Table.eq_of_key_eq hr hrow (of_decide_eq_true hid)
      rcases hw row' rfl with ⟨hv, hd⟩ | hnew
      · exact .inl ⟨row, hrow, by rw [hr'], hv.symm, hd.symm⟩
      · exact .inr hnew
    · rw [if_neg hid] at he
      exact .inl ⟨r, hr, by rw [← he], by rw [← he], by rw [← he]⟩

/-! ## Statements on vaults and keys -/

theorem vaultKeys_replaced {vaultKeys : Table VaultKey.id} (hk : ∀ k' ∈ vaultKeys,
      (∃ k ∈ db.vaultKeys, k.vaultId = k'.vaultId ∧ k.userId = k'.userId) ∨
      db.hasVault k'.vaultId = true ∧ (db.users.get? k'.userId).isSome = true) :
    Keeps W A db { db with vaultKeys := vaultKeys } := by
  refine of_subset (fun _ h => h) (fun _ h => h) (fun _ h => h) (fun _ h => h) fun hr =>
    ⟨hr.items, hr.attachments, fun k' h => ?_, fun k' h => ?_⟩
  · show db.hasVault k'.vaultId = true
    rcases hk k' h with ⟨k, hk, hv, -⟩ | ⟨hv, -⟩
    · rw [← hv]; exact hr.keys k hk
    · exact hv
  · show (db.users.get? k'.userId).isSome = true
    rcases hk k' h with ⟨k, hk, -, hu⟩ | ⟨-, hu⟩
    · rw [← hu]; exact hr.users k hk
    · exact hu

theorem insertVaultKey {key : VaultKey} {context : String} (h : Bittery.insertVaultKey db key context = .ok db') :
    Keeps W A db db' := by
  simp only [Bittery.insertVaultKey, Except.guard_ok_iff] at h
  obtain ⟨href, h⟩ := h
  split at h
  · next vaultKeys hins =>
    rw [Except.pure_ok_iff] at h
    subst h
    rw [not_not, Bool.and_eq_true] at href
    refine vaultKeys_replaced fun k' hk' => ?_
    rcases (Table.mem_insert hins k').mp hk' with hk | rfl
    · exact .inl ⟨k', hk, rfl, rfl⟩
    · exact .inr href
  · cases h

theorem updateVaultKeyRow {vaultId userId : String} {f : VaultKey → VaultKey}
    (hf : ∀ k, (f k).vaultId = k.vaultId ∧ (f k).userId = k.userId) :
    Keeps W A db (Bittery.updateVaultKeyRow db vaultId userId f) := by
  refine vaultKeys_replaced fun k' hk' => .inl ?_
  obtain ⟨k, hk, he⟩ := Table.mem_updateWhere.mp hk'
  refine ⟨k, hk, ?_⟩
  subst he
  split
  · exact ⟨(hf k).1.symm, (hf k).2.symm⟩
  · exact ⟨rfl, rfl⟩

theorem updateVaultRow {vaultId : String} {f : Vault → Vault} (hf : ∀ v, (f v).keyVersion = v.keyVersion) :
    Keeps W A db (Bittery.updateVaultRow db vaultId f) := by
  have hhas : ∀ v, (Bittery.updateVaultRow db vaultId f).hasVault v = db.hasVault v := by
    intro v
    show ((db.vaults.updateWhere _ _).get? v).isSome = (db.vaults.get? v).isSome
    rw [Table.get?_updateWhere, Option.isSome_map]
  refine ⟨fun _ h => h, fun v' h => ?_, fun i h => .inl ⟨i, h, rfl, rfl, rfl⟩,
    fun a h => .inl ⟨a, h, rfl, rfl, rfl⟩, fun hr => ⟨?_, ?_, ?_, hr.users⟩⟩
  · have h' : v' ∈ db.vaults.updateWhere (fun v => v.id = vaultId) (fun v => { f v with id := v.id })
        (fun _ => rfl) := h
    obtain ⟨v, hv, he⟩ := Table.mem_updateWhere.mp h'
    refine ⟨v, hv, ?_⟩
    subst he
    split
    · exact ⟨rfl, (hf v).symm⟩
    · exact ⟨rfl, rfl⟩
  · intro i h; rw [hhas]; exact hr.items i h
  · intro a h; rw [hhas]; exact hr.attachments a h
  · intro k h; rw [hhas]; exact hr.keys k h

theorem deleteVaultRows (db : Db) (vaultId : String) : Keeps W A db (Bittery.deleteVaultRows db vaultId) := by
  have hhas : ∀ v, v ≠ vaultId → db.hasVault v = true → (Bittery.deleteVaultRows db vaultId).hasVault v = true := by
    intro v hne hv
    obtain ⟨r, hr, rfl⟩ := Db.hasVault_iff.mp hv
    exact Db.hasVault_iff.mpr ⟨r, Table.mem_deleteWhere.mpr ⟨hr, by simpa using hne⟩, rfl⟩
  refine of_subset (fun p h => (Table.mem_deleteWhere.mp h).1) (fun v h => (Table.mem_deleteWhere.mp h).1)
    (fun i h => (Table.mem_deleteWhere.mp h).1) (fun a h => (Table.mem_deleteWhere.mp h).1) fun hr => ⟨?_, ?_, ?_, ?_⟩
  · intro i h
    obtain ⟨hi, hne⟩ := Table.mem_deleteWhere.mp h
    exact hhas _ (by simpa using hne) (hr.items i hi)
  · intro a h
    obtain ⟨ha, hne⟩ := Table.mem_deleteWhere.mp h
    rw [Bool.or_eq_false_iff] at hne
    exact hhas _ (by simpa using hne.1) (hr.attachments a ha)
  · intro k h
    obtain ⟨hk, hne⟩ := Table.mem_deleteWhere.mp h
    exact hhas _ (by simpa using hne) (hr.keys k hk)
  · intro k h
    exact hr.users k (Table.mem_deleteWhere.mp h).1

end Keeps

/-! ## Rows of items and attachments -/

/-- Items are rows that were there, attachments are filed as they were, and an attachment
that is left has its item left. -/
structure RowsKept (db db' : Db) : Prop where
  items : ∀ i' ∈ db'.items, i' ∈ db.items
  attachments : ∀ a' ∈ db'.attachments, ∃ a ∈ db.attachments, a.id = a'.id ∧ a.itemId = a'.itemId ∧ a.vaultId = a'.vaultId
  cascade : ∀ a' ∈ db'.attachments, ∀ i ∈ db.items, i.id = a'.itemId → i ∈ db'.items

namespace RowsKept

variable {db db' db'' : Db}

/-- A statement that touches neither table. -/
theorem of_eq (hi : db'.items = db.items) (ha : db'.attachments = db.attachments) : RowsKept db db' :=
  ⟨fun _ h => hi ▸ h, fun a h => ⟨a, ha ▸ h, rfl, rfl, rfl⟩, fun _ _ _ h _ => hi.symm ▸ h⟩

theorem refl (db : Db) : RowsKept db db := of_eq rfl rfl

theorem trans (h : RowsKept db db') (h' : RowsKept db' db'') : RowsKept db db'' := by
  refine ⟨fun i hi => h.items i (h'.items i hi), fun a'' ha'' => ?_, fun a'' ha'' i hi hid => ?_⟩
  · obtain ⟨a', ha', hid', hitem', hv'⟩ := h'.attachments a'' ha''
    obtain ⟨a, ha, hid, hitem, hv⟩ := h.attachments a' ha'
    exact ⟨a, ha, hid.trans hid', hitem.trans hitem', hv.trans hv'⟩
  · obtain ⟨a', ha', -, hitem', -⟩ := h'.attachments a'' ha''
    exact h'.cascade a'' ha'' i (h.cascade a' ha' i hi (hid.trans hitem'.symm)) hid

theorem insertSyncEvent {eventType : SyncEventType} {entityId : String} {entityType : SyncEntityType}
    {vaultId userId : String} {version : Nat} {clientId : Option String} {metadata : Option EventMetadata}
    (h : db.insertSyncEvent eventType entityId entityType vaultId userId version clientId metadata = .ok db') :
    RowsKept db db' := by
  obtain ⟨-, rfl⟩ := insertSyncEvent_ok h
  exact of_eq rfl rfl

theorem insertVaultKey {key : VaultKey} {context : String} (h : Bittery.insertVaultKey db key context = .ok db') :
    RowsKept db db' := by
  simp only [Bittery.insertVaultKey, Except.guard_ok_iff] at h
  obtain ⟨-, h⟩ := h
  split at h
  · cases h
    exact of_eq rfl rfl
  · cases h

theorem deleteVaultRows (db : Db) (vaultId : String) : RowsKept db (Bittery.deleteVaultRows db vaultId) := by
  refine ⟨fun i h => (Table.mem_deleteWhere.mp h).1, fun a h => ⟨a, (Table.mem_deleteWhere.mp h).1, rfl, rfl, rfl⟩,
    fun a ha i hi hid => Table.mem_deleteWhere.mpr ⟨hi, ?_⟩⟩
  obtain ⟨-, hleft⟩ := Table.mem_deleteWhere.mp ha
  rw [Bool.or_eq_false_iff, Table.any_eq_false] at hleft
  simpa [hid] using hleft.2 i hi

/-- Items go with their attachments. -/
theorem deleteItems (doomed : String → Bool) : RowsKept db
    { db with
      items := db.items.deleteWhere fun i => doomed i.id
      attachments := db.attachments.deleteWhere fun a => doomed a.itemId } := by
  refine ⟨fun i h => (Table.mem_deleteWhere.mp h).1, fun a h => ⟨a, (Table.mem_deleteWhere.mp h).1, rfl, rfl, rfl⟩,
    fun a ha i hi hid => Table.mem_deleteWhere.mpr ⟨hi, ?_⟩⟩
  rw [hid]
  exact (Table.mem_deleteWhere.mp ha).2

end RowsKept

/-! ## Both -/

/-- What every statement keeps that is given no ciphertext to file. -/
structure Kept (db db' : Db) : Prop where
  keeps : ∀ {W A : String → String → Prop}, Keeps W A db db'
  rows : RowsKept db db'

namespace Kept

variable {db db' db'' : Db}

theorem refl (db : Db) : Kept db db := ⟨.refl db, .refl db⟩

theorem trans (h : Kept db db') (h' : Kept db' db'') : Kept db db'' := ⟨h.keeps.trans h'.keeps, h.rows.trans h'.rows⟩

theorem insertSyncEvent {eventType : SyncEventType} {entityId : String} {entityType : SyncEntityType}
    {vaultId userId : String} {version : Nat} {clientId : Option String} {metadata : Option EventMetadata}
    (h : db.insertSyncEvent eventType entityId entityType vaultId userId version clientId metadata = .ok db') :
    Kept db db' := ⟨.insertSyncEvent h, .insertSyncEvent h⟩

theorem insertVaultKey {key : VaultKey} {context : String} (h : Bittery.insertVaultKey db key context = .ok db') :
    Kept db db' := ⟨.insertVaultKey h, .insertVaultKey h⟩

theorem updateVaultKeyRow {vaultId userId : String} {f : VaultKey → VaultKey}
    (hf : ∀ k, (f k).vaultId = k.vaultId ∧ (f k).userId = k.userId) :
    Kept db (Bittery.updateVaultKeyRow db vaultId userId f) := ⟨.updateVaultKeyRow hf, .of_eq rfl rfl⟩

theorem updateVaultRow {vaultId : String} {f : Vault → Vault} (hf : ∀ v, (f v).keyVersion = v.keyVersion) :
    Kept db (Bittery.updateVaultRow db vaultId f) := ⟨.updateVaultRow hf, .of_eq rfl rfl⟩

theorem deleteVaultRows (db : Db) (vaultId : String) : Kept db (Bittery.deleteVaultRows db vaultId) :=
  ⟨.deleteVaultRows db vaultId, .deleteVaultRows db vaultId⟩

/-- A loop of statements each of which keeps. -/
theorem foldlM {α : Type} {f : Db → α → Except AppError Db} (hf : ∀ d a d', f d a = .ok d' → Kept d d')
    {l : List α} (h : l.foldlM f db = .ok db') : Kept db db' :=
  @Except.foldlM_ok _ _ _ f (fun _ d => Kept db d) (fun _ a d d' hd hstep => hd.trans (hf d a d' hstep))
    l [] db db' (refl db) h

end Kept

end Bittery
