/-
What each transaction does to vaults, plans and ciphertexts.

Every step of the server is one of four: it keeps vaults and plans (`Keeps`) and files the
ciphertexts it was given; it founds a vault; it changes rotation plans alone; or it
finalizes plans. `Transaction.effect` says which, and is all that the invariants of whole
histories use of the services.
-/
import Bittery.Server.Keeps
import Bittery.Server.Rotation.DepartureFacts
import Bittery.Server.Rotation.PlanSteps

namespace Bittery

open Lib

variable {W A : String → String → Prop} {db db' seen acl : Db} {userId vaultId : String} {mode : DeploymentMode}

/-! ## Item and attachment requests -/

/-- The ciphertexts a request submits, each for the vault it will be filed under. -/
def ItemRequest.Writes (W : String → String → Prop) (db : Db) : ItemRequest → Prop
  | .create input => W input.vaultId input.encryptedData
  | .bulkImport input => ∀ i ∈ input.items, W input.vaultId i.item.encryptedData
  | .update input => ∀ data row, input.encryptedData = some data → db.items.get? input.itemId = some row →
      W row.vaultId data
  | .move input => W input.targetVaultId input.encryptedData
  | _ => True

theorem ItemMutation.keeps {m : ItemMutation} {version : Nat} (h : m.run seen acl db userId = .ok (db', version))
    (hw : ∀ row row', db.items.get? m.itemId = some row → m.write row = some row' →
      row'.vaultId = row.vaultId ∧ row'.encryptedData = row.encryptedData ∨
        W row'.vaultId row'.encryptedData ∧ (row'.vaultId = row.vaultId → db.hasVault row.vaultId = true)) :
    Keeps W A db db' := by
  obtain ⟨existing, row, hacc, -, rfl⟩ := ItemMutation.run_ok h
  refine (Keeps.writeRow (Table.mem_of_get? hacc.found) fun row' hrow' => ?_).trans (Keeps.appendEvent ..)
  rcases hw row row' hacc.found hrow' with hsame | ⟨hW, hv⟩
  · exact .inl hsame
  · by_cases hne : row'.vaultId = row.vaultId
    · exact .inr ⟨hW, by rw [hne]; exact hv hne⟩
    · exact .inr ⟨hW, hacc.vault row' hrow' hne⟩

theorem createVaultItem_keeps {input : CreateItemInput} (hW : W input.vaultId input.encryptedData)
    (h : createVaultItem acl db userId input = .ok db') : Keeps W A db db' := by
  simp only [createVaultItem, Except.bind_ok_iff] at h
  obtain ⟨⟨⟩, -, db₁, hins, hev⟩ := h
  exact (Keeps.insertItem hins hW).trans (Keeps.insertSyncEvent hev)

theorem bulkImportVaultItems_keeps {input : BulkImportItemsInput}
    (hW : ∀ i ∈ input.items, W input.vaultId i.item.encryptedData)
    (h : bulkImportVaultItems acl db userId input = .ok db') : Keeps W A db db' := by
  obtain ⟨-, rfl | ⟨-, hv, items, hrows, rfl⟩⟩ := bulkImportVaultItems_ok h
  · exact .refl _
  · refine (Keeps.items_replaced fun i' hi' => ?_).trans (Keeps.appendEvent ..)
    have hi' : i' ∈ items.rows := hi'
    rw [hrows, List.mem_append, importedItems, List.mem_map] at hi'
    rcases hi' with hi | ⟨i, hi, rfl⟩
    · exact .inl ⟨i', hi, rfl, rfl, rfl⟩
    · exact .inr ⟨hW i hi, hv⟩

theorem ItemRequest.keeps {r : ItemRequest} (hr : db.Referential) (hW : r.Writes W db)
    (h : r.run seen acl db userId = .ok db') : Keeps W A db db' := by
  cases r with
  | create input => exact createVaultItem_keeps hW h
  | bulkImport input => exact bulkImportVaultItems_keeps hW h
  | update input =>
    obtain ⟨version, h⟩ := ItemRequest.run_mutation rfl h
    refine ItemMutation.keeps h fun row row' hrow hwrite => ?_
    cases hwrite
    cases hd : input.encryptedData with
    | none => exact .inl ⟨rfl, by simp⟩
    | some data => exact .inr ⟨by simpa using hW data row hd hrow, fun _ => hr.items row (Table.mem_of_get? hrow)⟩
  | move input =>
    obtain ⟨version, h⟩ := ItemRequest.run_mutation rfl h
    refine ItemMutation.keeps h fun row row' hrow hwrite => ?_
    cases hwrite
    exact .inr ⟨hW, fun _ => hr.items row (Table.mem_of_get? hrow)⟩
  | favorite value input =>
    obtain ⟨version, h⟩ := ItemRequest.run_mutation rfl h
    refine ItemMutation.keeps h fun row row' hrow hwrite => .inl ?_
    cases hwrite; exact ⟨rfl, rfl⟩
  | delete now input =>
    obtain ⟨version, h⟩ := ItemRequest.run_mutation rfl h
    refine ItemMutation.keeps h fun row row' hrow hwrite => .inl ?_
    cases hwrite; exact ⟨rfl, rfl⟩
  | restore input =>
    obtain ⟨version, h⟩ := ItemRequest.run_mutation rfl h
    refine ItemMutation.keeps h fun row row' hrow hwrite => .inl ?_
    cases hwrite; exact ⟨rfl, rfl⟩
  | permanentDelete input =>
    obtain ⟨version, h⟩ := ItemRequest.run_mutation rfl h
    refine ItemMutation.keeps h fun row row' hrow hwrite => ?_
    cases hwrite

theorem createVaultAttachment_ok {clientId : Option String} {input : CreateAttachmentInput}
    (h : createVaultAttachment mode seen acl db userId clientId input = .ok db') :
    ∃ item a attachments e, seen.items.get? input.itemId = some item ∧ (db.items.get? input.itemId).isSome = true ∧
      db.hasVault item.vaultId = true ∧ a.itemId = input.itemId ∧ a.vaultId = item.vaultId ∧
      a.encryptedAttachmentKey = input.encryptedAttachmentKey ∧ db.attachments.insert a = some attachments ∧
      db' = { db with attachments := attachments }.appendEvent e := by
  simp only [createVaultAttachment, Except.bind_ok_iff, Except.guard_ok_iff] at h
  obtain ⟨⟨⟩, -, item, hitem, ⟨⟩, -, -, h⟩ := h
  split at h; · cases h
  simp only [Except.guard_ok_iff] at h
  obtain ⟨hfk, h⟩ := h
  split at h; · cases h
  next attachments hins =>
  rw [not_not, Bool.and_eq_true] at hfk
  exact ⟨item, _, attachments, _, loadItemRow_ok hitem, hfk.1, hfk.2, rfl, rfl, rfl, hins, (insertSyncEvent_ok h).2⟩

theorem createVaultAttachment_keeps {clientId : Option String} {input : CreateAttachmentInput}
    (hA : ∀ item, seen.items.get? input.itemId = some item → A item.vaultId input.encryptedAttachmentKey)
    (h : createVaultAttachment mode seen acl db userId clientId input = .ok db') : Keeps W A db db' := by
  obtain ⟨item, a, attachments, e, hitem, -, hv, -, hvault, hkey, hins, rfl⟩ := createVaultAttachment_ok h
  refine (Keeps.attachments_replaced fun a' ha' => ?_).trans (Keeps.appendEvent _ e)
  rcases (Table.mem_insert hins a').mp ha' with ha | rfl
  · exact .inl ⟨a', ha, rfl, rfl, rfl⟩
  · rw [hvault, hkey]
    exact .inr ⟨hA item hitem, hv⟩

theorem updateVaultAttachment_ok {clientId : Option String} {input : UpdateAttachmentInput}
    (h : updateVaultAttachment mode seen acl db userId clientId input = .ok db') :
    ∃ (attachments : Table ItemAttachment.id) (e : SyncEvent), (∀ a' ∈ attachments, ∃ a ∈ db.attachments, a.id = a'.id ∧
      a.itemId = a'.itemId ∧ a.vaultId = a'.vaultId ∧ a.encryptedAttachmentKey = a'.encryptedAttachmentKey) ∧
      db' = { db with attachments := attachments }.appendEvent e := by
  simp only [updateVaultAttachment, Except.bind_ok_iff, Prod.exists] at h
  obtain ⟨⟨⟩, -, attachment, role, -, ⟨⟩, -, item, -, h⟩ := h
  refine ⟨_, _, fun a' ha' => ?_, (insertSyncEvent_ok h).2⟩
  obtain ⟨a, ha, he⟩ := Table.mem_updateWhere.mp ha'
  refine ⟨a, ha, ?_⟩
  subst he
  split <;> exact ⟨rfl, rfl, rfl, rfl⟩

theorem deleteVaultAttachment_ok {clientId : Option String} {attachmentId : String}
    (h : deleteVaultAttachment mode seen acl db userId clientId attachmentId = .ok db') :
    ∃ e : SyncEvent, db' =
      { db with attachments := db.attachments.deleteWhere fun a => a.id = attachmentId }.appendEvent e := by
  simp only [deleteVaultAttachment, Except.bind_ok_iff, Prod.exists] at h
  obtain ⟨⟨⟩, -, attachment, role, -, h⟩ := h
  split at h
  · simp only [Except.bind_ok_iff] at h
    obtain ⟨item, -, h⟩ := h
    exact ⟨_, (insertSyncEvent_ok h).2⟩
  · simp only [Except.bind_ok_iff] at h
    obtain ⟨item, -, h⟩ := h
    exact ⟨_, (insertSyncEvent_ok h).2⟩
  · simp only [Except.guard_ok_iff, Except.bind_ok_iff] at h
    obtain ⟨-, item, -, h⟩ := h
    exact ⟨_, (insertSyncEvent_ok h).2⟩
  · cases h

/-- Attachments that are left are as they were filed. -/
theorem Kept.attachments {attachments : Table ItemAttachment.id} (e : SyncEvent) (ha : ∀ a' ∈ attachments,
      ∃ a ∈ db.attachments, a.id = a'.id ∧ a.itemId = a'.itemId ∧ a.vaultId = a'.vaultId ∧
        a.encryptedAttachmentKey = a'.encryptedAttachmentKey) :
    Kept db ({ db with attachments := attachments }.appendEvent e) := by
  refine ⟨(Keeps.attachments_replaced fun a' ha' => .inl ?_).trans (.appendEvent _ e),
    fun _ h => h, fun a' ha' => ?_, fun _ _ _ h _ => h⟩
  · obtain ⟨a, ha, hid, -, hv, hkey⟩ := ha a' ha'
    exact ⟨a, ha, hid, hv, hkey⟩
  · obtain ⟨a, ha, hid, hitem, hv, -⟩ := ha a' ha'
    exact ⟨a, ha, hid, hitem, hv⟩

theorem updateVaultAttachment_kept {clientId : Option String} {input : UpdateAttachmentInput}
    (h : updateVaultAttachment mode seen acl db userId clientId input = .ok db') : Kept db db' := by
  obtain ⟨attachments, e, ha, rfl⟩ := updateVaultAttachment_ok h
  exact .attachments e ha

theorem deleteVaultAttachment_kept {clientId : Option String} {attachmentId : String}
    (h : deleteVaultAttachment mode seen acl db userId clientId attachmentId = .ok db') : Kept db db' := by
  obtain ⟨e, rfl⟩ := deleteVaultAttachment_ok h
  exact .attachments e fun a ha => ⟨a, (Table.mem_deleteWhere.mp ha).1, rfl, rfl, rfl, rfl⟩

/-! ## Vaults and members -/

theorem updateVault_kept {input : UpdateVaultInput} (h : updateVault seen db userId input = .ok db') :
    Kept db db' := by
  simp only [updateVault, Except.guard_ok_iff, Except.bind_ok_iff, Prod.exists] at h
  obtain ⟨-, current, role, -, -, h⟩ := h
  exact (Kept.updateVaultRow (by intro v; rfl)).trans (Kept.insertSyncEvent h)

theorem convertVaultRows_kept {current : Vault} {input : ConvertVaultTypeInput}
    (h : convertVaultRows mode seen db userId current input = .ok db') : Kept db db' := by
  unfold convertVaultRows at h
  split at h
  · simp only [Except.bind_ok_iff, Prod.exists, Except.pure_ok_iff] at h
    obtain ⟨teamId, limit, -, ⟨⟩, -, rfl⟩ := h
    exact Kept.updateVaultRow fun _ => rfl
  · split at h
    · split at h; · cases h
      split at h
      · cases h
        exact Kept.updateVaultRow fun _ => rfl
      · cases h
        exact (Kept.updateVaultRow (by intro v; rfl)).trans (Kept.updateVaultKeyRow (by intro k; exact ⟨rfl, rfl⟩))
    · cases h
  · cases h

theorem convertVaultType_kept {input : ConvertVaultTypeInput} (h : convertVaultType mode seen db userId input = .ok db') :
    Kept db db' := by
  simp only [convertVaultType, Except.guard_ok_iff, Except.bind_ok_iff, Prod.exists] at h
  obtain ⟨⟨⟩, -, current, role, -, -, db₁, hrows, h⟩ := h
  exact (convertVaultRows_kept hrows).trans (Kept.insertSyncEvent h)

theorem deleteVault_kept {clientId : Option String} (h : deleteVault seen acl db userId clientId vaultId = .ok db') :
    Kept db db' := by
  simp only [deleteVault, Except.guard_ok_iff, Except.bind_ok_iff, Prod.exists, Except.pure_ok_iff] at h
  obtain ⟨vault, role, -, -, db₁, hev, db₂, hloop, rfl⟩ := h
  have hloop : Kept db₁ db₂ := Kept.foldlM (fun _ _ _ hstep => Kept.insertSyncEvent hstep) hloop
  exact ((Kept.insertSyncEvent hev).trans hloop).trans (Kept.deleteVaultRows ..)

theorem updateVaultMemberRole_kept {input : UpdateVaultMemberRoleInput}
    (h : updateVaultMemberRole mode seen db userId input = .ok db') : Kept db db' := by
  simp only [updateVaultMemberRole, Except.guard_ok_iff, Except.bind_ok_iff, Prod.exists] at h
  obtain ⟨role, -, actor, team, -, -, h⟩ := h
  split at h; · cases h
  simp only [Except.bind_ok_iff, Except.pure_ok_iff] at h
  obtain ⟨⟨⟩, -, rfl⟩ := h
  exact Kept.updateVaultKeyRow fun _ => ⟨rfl, rfl⟩

theorem addVaultMember_kept {keyId : String} {input : AddVaultMemberInput}
    (h : addVaultMember mode seen db userId keyId input = .ok db') : Kept db db' := by
  simp only [addVaultMember, Except.bind_ok_iff, Prod.exists] at h
  obtain ⟨⟨⟩, -, role, -, actor, team, -, h⟩ := h
  split at h; · cases h
  simp only [Except.guard_ok_iff, Except.bind_ok_iff] at h
  obtain ⟨-, -, db₁, hkey, h⟩ := h
  exact (Kept.insertVaultKey hkey).trans (Kept.insertSyncEvent h)

/-! ## New vaults -/

/-- A vault has been founded, at key version 1, perhaps by a new user. -/
structure Founded (db db' : Db) : Prop where
  vault : ∃ v, db.vaults.insert v = some db'.vaults ∧ v.keyVersion = 1
  plans : db'.plans = db.plans
  items : db'.items = db.items
  attachments : db'.attachments = db.attachments
  keys : db'.vaultKeys = db.vaultKeys
  users : ∀ u, (db.users.get? u).isSome = true → (db'.users.get? u).isSome = true

theorem Founded.rows (h : Founded db db') : RowsKept db db' := .of_eq h.items h.attachments

theorem Founded.referential (h : Founded db db') (hr : db.Referential) : db'.Referential := by
  obtain ⟨v, hins, -⟩ := h.vault
  have hhas : ∀ id, db.hasVault id = true → db'.hasVault id = true := by
    intro id hid
    obtain ⟨r, hr, rfl⟩ := Db.hasVault_iff.mp hid
    exact Db.hasVault_iff.mpr ⟨r, (Table.mem_insert hins r).mpr (.inl hr), rfl⟩
  refine ⟨fun i hi => hhas _ (hr.items i (h.items ▸ hi)), fun a ha => hhas _ (hr.attachments a (h.attachments ▸ ha)),
    fun k hk => hhas _ (hr.keys k (h.keys ▸ hk)), fun k hk => h.users _ (hr.users k (h.keys ▸ hk))⟩

theorem insertVault_founded {vault : Vault} {context : String} (h : insertVault db vault context = .ok db')
    (hkv : vault.keyVersion = 1) : Founded db db' := by
  simp only [insertVault, Except.guard_ok_iff] at h
  obtain ⟨-, h⟩ := h
  split at h
  · next vaults hins =>
    cases h
    exact ⟨⟨vault, hins, hkv⟩, rfl, rfl, rfl, rfl, fun _ h => h⟩
  · cases h

theorem createVault_founded {generatedId keyId : String} {input : CreateVaultInput}
    (h : createVault mode seen db userId generatedId keyId input = .ok db') :
    ∃ db₁, Founded db db₁ ∧ Kept db₁ db' := by
  simp only [createVault, Except.guard_ok_iff] at h
  obtain ⟨-, h⟩ := h
  split at h
  · simp only [Except.bind_ok_iff] at h
    obtain ⟨team, -, ⟨⟩, -, db₁, hvault, db₂, hkey, hev⟩ := h
    exact ⟨db₁, insertVault_founded hvault rfl, (Kept.insertVaultKey hkey).trans (Kept.insertSyncEvent hev)⟩
  · simp only [Except.bind_ok_iff] at h
    obtain ⟨team, -, ⟨⟩, -, db₁, hvault, db₂, hkey, hev⟩ := h
    exact ⟨db₁, insertVault_founded hvault rfl, (Kept.insertVaultKey hkey).trans (Kept.insertSyncEvent hev)⟩

theorem registerUser_founded {user : User} {keyId encryptedVaultKey : String} {invitation : Option Invitation}
    (h : registerUser seen db user vaultId keyId encryptedVaultKey invitation = .ok db') :
    ∃ db₁, Founded db db₁ ∧ Kept db₁ db' := by
  simp only [registerUser, Except.bind_ok_iff] at h
  obtain ⟨⟨⟩, -, h⟩ := h
  split at h; · cases h
  next users hins =>
  simp only [Except.bind_ok_iff] at h
  obtain ⟨⟨⟩, -, db₁, hvault, db₂, hkey, h⟩ := h
  have hf := insertVault_founded hvault rfl
  refine ⟨db₁, ⟨hf.vault, hf.plans, hf.items, hf.attachments, hf.keys, fun u hu => hf.users u ?_⟩,
    (Kept.insertVaultKey hkey).trans (Kept.foldlM (fun d k d' hstep => ?_) h)⟩
  · show (users.get? u).isSome = true
    rw [Table.get?_insert hins]
    split
    · rfl
    · exact hu
  · simp only [Except.bind_ok_iff] at hstep
    obtain ⟨⟨⟩, -, hstep⟩ := hstep
    exact Kept.insertVaultKey hstep

/-! ## Accounts and background jobs -/

theorem acceptInvitation_kept {invitation : Invitation} (h : acceptInvitation mode seen db userId invitation = .ok db') :
    Kept db db' := by
  unfold acceptInvitation at h
  split at h; · cases h
  simp only [Except.guard_ok_iff] at h
  obtain ⟨-, h⟩ := h
  split at h; · cases h
  simp only [Except.guard_ok_iff, Except.bind_ok_iff] at h
  obtain ⟨-, ⟨⟩, -, h⟩ := h
  have hjoin : ∀ u, (db.users.get? u).isSome = true → ((db.users.updateWhere (fun u => decide (u.id = userId))
      fun u => { u with teamId := some invitation.teamId, role := invitation.role }).get? u).isSome = true := by
    intro u hu
    rwa [Table.get?_updateWhere, Option.isSome_map]
  refine Kept.trans ?_ (Kept.foldlM (fun d k d' hstep => ?_) h)
  · exact ⟨.of_eq rfl rfl rfl rfl rfl hjoin, .of_eq rfl rfl⟩
  simp only [Except.bind_ok_iff] at hstep
  obtain ⟨⟨⟩, -, hstep⟩ := hstep
  split at hstep
  · cases hstep
    exact .refl _
  · exact Kept.insertVaultKey hstep

theorem applyEncryptedVaultKeyUpdates_kept {keys : List (String × String)}
    (h : applyEncryptedVaultKeyUpdates db userId keys = .ok db') : Kept db db' := by
  refine Kept.foldlM (fun d k d' hstep => ?_) h
  simp only [Except.bind_ok_iff, Except.pure_ok_iff] at hstep
  obtain ⟨⟨⟩, -, rfl⟩ := hstep
  exact Kept.updateVaultKeyRow fun _ => ⟨rfl, rfl⟩

theorem deleteVaults_kept (vaultIds : List String) (db : Db) : Kept db (vaultIds.foldl deleteVaultRows db) := by
  induction vaultIds generalizing db with
  | nil => exact .refl db
  | cons v vs ih => exact (Kept.deleteVaultRows db v).trans (ih _)

theorem deleteAccount_kept (h : deleteAccount db userId = .ok db') : Kept db db' := by
  simp only [deleteAccount, Except.guard_ok_iff, Except.pure_ok_iff] at h
  obtain ⟨-, rfl⟩ := h
  refine (deleteVaults_kept (createdVaults db userId) db).trans ?_
  refine ⟨.of_subset (fun p h => (Table.mem_deleteWhere.mp h).1) (fun _ h => h) (fun _ h => h) (fun _ h => h) ?_,
    .of_eq rfl rfl⟩
  refine fun hr => ⟨hr.items, hr.attachments, fun k hk => hr.keys k (Table.mem_deleteWhere.mp hk).1, fun k hk => ?_⟩
  -- The keys that are left belong to other users.
  obtain ⟨hk, hne⟩ := Table.mem_deleteWhere.mp hk
  obtain ⟨u, hu, hid⟩ := Table.isSome_get?_iff.mp (hr.users k hk)
  refine Table.isSome_get?_iff.mpr ⟨u, Table.mem_deleteWhere.mpr ⟨hu, ?_⟩, hid⟩
  rw [hid]; exact hne

theorem cleanupTombstones_kept {cutoff : Time} (h : cleanupTombstones seen db cutoff = .ok db') : Kept db db' := by
  simp only [cleanupTombstones, Except.bind_ok_iff, Except.pure_ok_iff] at h
  obtain ⟨db₁, hloop, rfl⟩ := h
  refine (Kept.foldlM (fun _ _ _ hstep => Kept.insertSyncEvent hstep) hloop).trans ?_
  refine ⟨.of_subset (fun _ h => h) (fun _ h => h) (fun i h => (Table.mem_deleteWhere.mp h).1)
    (fun a h => (Table.mem_deleteWhere.mp h).1) fun hr => ⟨fun i h => ?_, fun a h => ?_, hr.keys, hr.users⟩,
    .deleteItems fun itemId => (tombstoneCandidates seen cutoff).any fun i => i.id = itemId⟩
  · exact hr.items i (Table.mem_deleteWhere.mp h).1
  · exact hr.attachments a (Table.mem_deleteWhere.mp h).1

/-! ## Finalizations -/

/-- The tables of vaults, plans and ciphertexts are the same. -/
structure SameRows (db db' : Db) : Prop where
  plans : db'.plans = db.plans
  vaults : db'.vaults = db.vaults
  items : db'.items = db.items
  attachments : db'.attachments = db.attachments
  keys : db'.vaultKeys = db.vaultKeys
  users : ∀ u, (db.users.get? u).isSome = true → (db'.users.get? u).isSome = true

theorem SameRows.refl (db : Db) : SameRows db db := ⟨rfl, rfl, rfl, rfl, rfl, fun _ h => h⟩

theorem SameRows.referential (h : SameRows db db') (hr : db.Referential) : db'.Referential :=
  (Keeps.of_eq (W := fun _ _ => False) (A := fun _ _ => False) h.plans h.vaults h.items h.attachments h.keys
    h.users).referential hr

theorem moveToPersonalTeam_sameRows {tx tx' : Versions Db} {target : User} {personalTeamId : String}
    (h : moveToPersonalTeam tx target personalTeamId = some tx') : SameRows tx.current tx'.current := by
  simp only [moveToPersonalTeam, Option.bind_eq_bind, Option.bind_eq_some_iff, TableOf.delete_eq_some,
    TableOf.insert_eq_some, TableOf.update_eq_some] at h
  obtain ⟨_, ⟨-, rfl⟩, _, ⟨s, c, -, -, rfl⟩, -, rfl⟩ := h
  refine ⟨rfl, rfl, rfl, rfl, rfl, fun u hu => ?_⟩
  show ((tx.current.users.updateWhere (fun u => decide (u.id = target.id) && decide (u ∈ tx.snapshot.users))
    (fun u => { u with teamId := some personalTeamId, role := .owner }) fun _ => rfl).get? u).isSome = true
  rwa [Table.get?_updateWhere, Option.isSome_map]

theorem finalizeRemovalTx_ok {tx tx' : Versions Db} {begun now : Time} {actorId targetId planId rotationId : String}
    {result : RotationResult}
    (h : finalizeRemovalTx mode tx begun now actorId vaultId targetId planId rotationId = .ok (tx', result)) :
    ∃ plan vault, Finalized planId actorId plan vault tx tx' := by
  simp only [finalizeRemovalTx, Except.bind_ok_iff, Except.guard_ok_iff] at h
  obtain ⟨policy, -, -, h⟩ := h
  split at h
  · simp only [Except.bind_ok_iff, Except.guard_ok_iff, Except.mapError_ok_iff] at h
    obtain ⟨⟨⟩, -, ⟨⟩, -, -, ⟨⟩, -, ⟨⟩, -, h⟩ := h
    exact finalizeLockedPlan_finalized h
  · cases h

/-! ## One transaction -/

/-- A new plan gets an id no plan has had, and is prepared from a database of the history. -/
def History.New (h : History) (planId : String) (snapshot : Db) : Prop :=
  Transaction.freshPlanId h planId = true ∧ snapshot ∈ h.states

/-- What is promised of the transactions of a run: of the ciphertexts of items and the keys
of attachments they are given to file, each with its vault; of the outputs they are given
to stage for a plan; and of the finalizations of a plan. -/
structure Terms where
  item : String → String → Prop
  attachment : String → String → Prop
  output : RotationPlan → StagedRecord → Prop
  rotation : Versions Db → RotationPlan → Prop

/-- No promise. -/
def Terms.none : Terms := ⟨fun _ _ => True, fun _ _ => True, fun _ _ => True, fun _ _ => True⟩

def Transaction.Meets (F : Terms) (h : History) : Transaction → Prop
  | item _ request _ _ => request.Writes F.item h.now
  | createAttachment _ _ input seen _ => ∀ db item, h.ago seen = some db →
      db.items.get? input.itemId = some item → F.attachment item.vaultId input.encryptedAttachmentKey
  | stageOutputs _ planId _ kind outputs => ∀ p, h.now.plans.get? planId = some p →
      ∀ s : StagedRecord, s.GivenBy kind outputs → F.output p s
  | finalizeRemoval _ _ _ _ _ planId _ snap => ∀ snapshot p, h.ago snap = some snapshot →
      snapshot.plans.get? planId = some p → F.rotation ⟨snapshot, h.now⟩ p
  | finalizeDeparture _ _ _ _ _ _ plans _ snap => ∀ snapshot p, h.ago snap = some snapshot →
      ∀ x ∈ plans, snapshot.plans.get? x.1 = some p → F.rotation ⟨snapshot, h.now⟩ p
  | _ => True

theorem Transaction.meets_none {h : History} (t : Transaction) : t.Meets .none h := by
  cases t with
  | item userId request seen acl => cases request <;> simp [Meets, ItemRequest.Writes, Terms.none]
  | _ => simp [Meets, Terms.none]

/-- The four kinds of steps. -/
inductive Effect (F : Terms) (h : History) (db' : Db) : Prop
  | keeps (hk : Keeps F.item F.attachment h.now db')
  | founds {db₁ : Db} (hf : Founded h.now db₁) (hk : Keeps (fun _ _ => False) (fun _ _ => False) db₁ db')
  | plans (hp : PlansEvolve F.output h.New h.now db')
  | finalizes {ps : List RotationPlan} {snapshot : Db} {tx' : Versions Db} (hs : snapshot ∈ h.states)
      (hnd : (ps.map (·.vaultId)).Nodup) (hterms : ∀ p ∈ ps, F.rotation ⟨snapshot, h.now⟩ p)
      (hall : AllFinalized ps ⟨snapshot, h.now⟩ tx') (hsame : SameRows tx'.current db')

theorem History.mem_states {h : History} {n : Nat} (hn : h.ago n = some db) : db ∈ h.states := List.mem_of_getElem? hn

theorem Effect.of_rollback {F : Terms} {h : History} (e : Aborted) : Effect F h (e.rollback h.now).1 := by
  cases e with
  | failed e => exact .keeps (.refl _)
  | stale planId reason => exact .plans (recordStale_evolves ..)

/-- **Every step is one of the four.** -/
theorem Transaction.effect {d : Deployment} {F : Terms} {h : History} {t : Transaction} (hr : h.now.Referential)
    (hsub : t.Meets F h) (hrun : t.run d h = some db') : Effect F h db' := by
  cases t with
  | item userId request seen acl =>
    obtain ⟨_, -, _, -, hrun⟩ := History.ran₂ hrun
    exact .keeps (ItemRequest.keeps hr hsub hrun)
  | createAttachment userId clientId input seen acl =>
    obtain ⟨db, hdb, _, -, hrun⟩ := History.ran₂ hrun
    exact .keeps (createVaultAttachment_keeps (fun item hitem => hsub db item hdb hitem) hrun)
  | updateAttachment userId clientId input seen acl =>
    obtain ⟨_, -, _, -, hrun⟩ := History.ran₂ hrun
    exact .keeps (updateVaultAttachment_kept hrun).keeps
  | deleteAttachment userId clientId attachmentId seen acl =>
    obtain ⟨_, -, _, -, hrun⟩ := History.ran₂ hrun
    exact .keeps (deleteVaultAttachment_kept hrun).keeps
  | createVault userId generatedId keyId input seen =>
    obtain ⟨_, -, hrun⟩ := History.ran hrun
    obtain ⟨db₁, hf, hk⟩ := createVault_founded hrun
    exact .founds hf hk.keeps
  | updateVault userId input seen =>
    obtain ⟨_, -, hrun⟩ := History.ran hrun
    exact .keeps (updateVault_kept hrun).keeps
  | convertVaultType userId input seen =>
    obtain ⟨_, -, hrun⟩ := History.ran hrun
    exact .keeps (convertVaultType_kept hrun).keeps
  | deleteVault userId clientId vaultId seen listed =>
    obtain ⟨_, -, _, -, hrun⟩ := History.ran₂ hrun
    exact .keeps (deleteVault_kept hrun).keeps
  | updateVaultMemberRole userId input seen =>
    obtain ⟨_, -, hrun⟩ := History.ran hrun
    exact .keeps (updateVaultMemberRole_kept hrun).keeps
  | addVaultMember userId keyId input seen =>
    obtain ⟨_, -, hrun⟩ := History.ran hrun
    exact .keeps (addVaultMember_kept hrun).keeps
  | acceptInvitation userId invitation seen =>
    obtain ⟨_, -, hrun⟩ := History.ran hrun
    exact .keeps (acceptInvitation_kept hrun).keeps
  | registerUser user vaultId keyId encryptedVaultKey invitation seen =>
    obtain ⟨_, -, hrun⟩ := History.ran hrun
    obtain ⟨db₁, hf, hk⟩ := registerUser_founded hrun
    exact .founds hf hk.keeps
  | updateVaultKeys userId keys =>
    exact .keeps (applyEncryptedVaultKeyUpdates_kept (Except.toOption_eq_some_iff.mp hrun)).keeps
  | deleteAccount userId => exact .keeps (deleteAccount_kept (Except.toOption_eq_some_iff.mp hrun)).keeps
  | accounts users sessions teams =>
    simp only [run] at hrun
    split at hrun
    · next hfk =>
      cases hrun
      rw [Bool.and_eq_true, List.all_eq_true] at hfk
      exact .keeps (.of_subset (fun _ h => h) (fun _ h => h) (fun _ h => h) (fun _ h => h)
        fun hr => ⟨hr.items, hr.attachments, hr.keys, hfk.1⟩)
    · cases hrun
  | cleanupTombstones cutoff seen =>
    obtain ⟨_, -, hrun⟩ := History.ran hrun
    exact .keeps (cleanupTombstones_kept hrun).keeps
  | pruneSyncEvents upTo =>
    cases hrun
    exact .keeps (.of_eq rfl rfl rfl rfl rfl fun _ h => h)
  | createRemovalPlan now planId actorId vaultId targetId seen snap =>
    simp only [run, Option.bind_eq_bind, Option.bind_eq_some_iff, Except.toOption_eq_some_iff, Option.guard_eq_some',
      exists_const] at hrun
    obtain ⟨hfresh, _, -, snapshot, hsnap, hrun⟩ := hrun
    exact .plans (createRemovalPlan_evolves ⟨hfresh, History.mem_states hsnap⟩ hrun)
  | createDeparturePlan now planId teamId actorId targetId intent vaultId seen snap =>
    simp only [run, Option.bind_eq_bind, Option.bind_eq_some_iff, Except.toOption_eq_some_iff, Option.guard_eq_some',
      exists_const] at hrun
    obtain ⟨hfresh, _, -, snapshot, hsnap, hrun⟩ := hrun
    exact .plans (createDeparturePlan_evolves ⟨hfresh, History.mem_states hsnap⟩ hrun)
  | readPreparationPage now planId userId kind cursor limit =>
    obtain ⟨⟨_, page⟩, hpage, rfl⟩ := Except.map_ok_iff.mp (Except.toOption_eq_some_iff.mp hrun)
    exact .plans (readPreparationPage_evolves hpage)
  | stageOutputs now planId userId kind outputs =>
    exact .plans (stageOutputs_evolves hsub (Except.toOption_eq_some_iff.mp hrun))
  | abandonPlan now planId userId => exact .plans (abandonPlan_evolves (Except.toOption_eq_some_iff.mp hrun))
  | recordStale planId reason =>
    cases hrun
    exact .plans (recordStale_evolves ..)
  | cleanupRotationPlans now locked limit =>
    cases hrun
    exact .plans (cleanupRotationPlans_evolves ..)
  | finalizeRemoval begun now actorId vaultId targetId planId rotationId snap =>
    simp only [run, Option.bind_eq_bind, Option.bind_eq_some_iff, Option.pure_def, Option.some.injEq] at hrun
    obtain ⟨snapshot, hsnap, rfl⟩ := hrun
    unfold Bittery.finalizeRemoval commitOrRollback
    split
    · next tx' result hok =>
      obtain ⟨plan, vault, hf⟩ := finalizeRemovalTx_ok hok
      have hall : AllFinalized [plan] ⟨snapshot, h.now⟩ tx' := .cons hf (by simp) (by simp) (.nil _)
      have hnd : ([plan].map (·.vaultId)).Nodup := List.nodup_singleton _
      refine .finalizes (History.mem_states hsnap) hnd (fun p hp => ?_) hall (.refl _)
      obtain rfl : p = plan := List.mem_singleton.mp hp
      exact hsub snapshot p hsnap hf.locked.foundPlan
    · exact .of_rollback _
  | finalizeDeparture begun now teamId actorId targetId intent plans personalTeamId snap =>
    simp only [run, Option.bind_eq_bind, Option.bind_eq_some_iff, Option.pure_def, Option.some.injEq] at hrun
    obtain ⟨snapshot, hsnap, rfl⟩ := hrun
    unfold Bittery.finalizeDeparture commitOrRollback
    split
    · next tx' result hok =>
      obtain ⟨target, team, ps, es, tx₁, -, -, -, hps, hturn, hmove⟩ := finalizeDepartureTx_ok hok
      refine .finalizes (History.mem_states hsnap) hps.nodup (fun p hp => ?_) hturn.all (moveToPersonalTeam_sameRows hmove)
      obtain ⟨id, hid, hget⟩ := forall₂_exists_of_mem_right hps.found hp
      obtain ⟨x, hx, rfl⟩ := List.mem_map.mp hid
      exact hsub snapshot p hsnap x hx hget
    · exact .of_rollback _

/-! ## The foreign keys hold in every state -/

theorem Effect.referential {F : Terms} {h : History} (he : Effect F h db') (hr : h.now.Referential) :
    db'.Referential := by
  cases he with
  | keeps hk => exact hk.referential hr
  | founds hf hk => exact hk.referential (hf.referential hr)
  | plans hp =>
    obtain ⟨plans, rfl, -⟩ := hp
    exact ⟨hr.items, hr.attachments, hr.keys, hr.users⟩
  | finalizes hs hnd hterms hall hsame => exact hsame.referential (hall.referential hr)

/-- Every database of a history that is reached has its foreign keys. -/
theorem referential_of_reachable {d : Deployment} {h : History} (hh : (server d).Reachable h) :
    ∀ db ∈ h.states, db.Referential := by
  refine System.Reachable.invariant (fun h => ∀ db ∈ h.states, db.Referential) ?_ ?_ hh
  · rintro _ rfl db hdb
    obtain rfl : db = Db.empty := by simpa [History.states] using hdb
    exact ⟨fun _ h => absurd h (Table.not_mem_empty _), fun _ h => absurd h (Table.not_mem_empty _),
      fun _ h => absurd h (Table.not_mem_empty _), fun _ h => absurd h (Table.not_mem_empty _)⟩
  · intro h t h' _ hI hstep db hdb
    obtain ⟨db', hrun, rfl⟩ := Option.map_eq_some_iff.mp hstep
    rcases List.mem_cons.mp hdb with rfl | hdb
    · have hr := hI h.now (by simp [History.states])
      exact (Transaction.effect hr t.meets_none hrun).referential hr
    · exact hI db hdb

end Bittery
