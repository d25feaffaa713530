/-
That the attachments of a vault are those of its items.

The vault of an attachment is stored with it, and a rotation looks for the attachments of
its vault there. Nothing refiles an attachment: a move writes the row of the item alone, and
a new attachment is filed under the vault its item was read in, before the transaction.
-/
import Bittery.Server.ItemRows
import Bittery.Server.Rotation.PlanSafety

namespace Bittery

open Lib

/-- Every attachment is filed under the vault of its item. -/
def Db.AttachmentsFollow (db : Db) : Prop :=
  ∀ a ∈ db.attachments, ∃ i ∈ db.items, i.id = a.itemId ∧ i.vaultId = a.vaultId

/-- **Attachments follow their item**, and so a rotation of a vault lists and rewraps exactly
the attachments of the items of the vault. -/
structure RewrapsItsItems (db : Db) : Prop where
  follow : db.AttachmentsFollow
  listed : ∀ vaultId id, (∃ m ∈ attachmentManifest db vaultId, m.entityId = id) ↔
    ∃ a ∈ db.attachments, a.id = id ∧ ∃ i ∈ db.items, i.id = a.itemId ∧ i.vaultId = vaultId
  rewrapped : ∀ plan vault, checkPlan db plan vault = .ok () → ∀ a ∈ db.attachments,
    (plan.rewrapsAttachment a = true ↔ ∃ i ∈ db.items, i.id = a.itemId ∧ i.vaultId = plan.vaultId)

namespace Db.AttachmentsFollow

variable {db db' seen acl : Db} {userId : String}

theorem vault_iff (hf : db.AttachmentsFollow) {a : ItemAttachment} (ha : a ∈ db.attachments) (vaultId : String) :
    a.vaultId = vaultId ↔ ∃ i ∈ db.items, i.id = a.itemId ∧ i.vaultId = vaultId := by
  obtain ⟨i, hi, hid, hv⟩ := hf a ha
  constructor
  · rintro rfl
    exact ⟨i, hi, hid, hv⟩
  · rintro ⟨i', hi', hid', hv'⟩
    rw [← hv, ← hv', Table.eq_of_key_eq hi hi' (hid.trans hid'.symm)]

/-- What the rest of the claim rests on: the two ways to find the attachments of a vault agree. -/
theorem rewraps (hf : db.AttachmentsFollow) : RewrapsItsItems db := by
  refine ⟨hf, fun vaultId id => ?_, fun plan vault hcheck a ha => ?_⟩
  · simp only [attachmentManifest, List.mem_map, Table.mem_select, decide_eq_true_eq]
    constructor
    · rintro ⟨_, ⟨a, ⟨ha, hv⟩, rfl⟩, rfl⟩
      exact ⟨a, ha, rfl, (hf.vault_iff ha vaultId).mp hv⟩
    · rintro ⟨a, ha, rfl, hitem⟩
      exact ⟨_, ⟨a, ⟨ha, (hf.vault_iff ha vaultId).mpr hitem⟩, rfl⟩, rfl⟩
  · rw [← hf.vault_iff ha plan.vaultId]
    refine ⟨rewrapsAttachment_vault, fun hv => ?_⟩
    obtain ⟨m, s, -, -, hs⟩ := (checkPlan_ok hcheck).attachments a ha hv
    simp [RotationPlan.rewrapsAttachment, hv, hs]

/-! ## What a transaction preserves -/

theorem kept (hf : db.AttachmentsFollow) (hk : RowsKept db db') : db'.AttachmentsFollow := by
  intro a' ha'
  obtain ⟨a, ha, -, hitem, hv⟩ := hk.attachments a' ha'
  obtain ⟨i, hi, hid, hvault⟩ := hf a ha
  exact ⟨i, hk.cascade a' ha' i hi (hid.trans hitem), hid.trans hitem, hvault.trans hv⟩

/-- New items take no attachment away. -/
theorem items_added (hf : db.AttachmentsFollow) {items : Table Item.id} (hi : ∀ i ∈ db.items, i ∈ items) :
    AttachmentsFollow { db with items := items } := by
  intro a ha
  obtain ⟨i, hi', hid, hv⟩ := hf a ha
  exact ⟨i, hi i hi', hid, hv⟩

/-- A row that changes its vault must have no attachments. -/
theorem writeRow {row : Item} {w : Option Item} (hf : db.AttachmentsFollow) (hrow : row ∈ db.items)
    (hw : ∀ row', w = some row' → row'.vaultId = row.vaultId ∨ ∀ a ∈ db.attachments, a.itemId ≠ row.id) :
    (Bittery.writeRow db row w).AttachmentsFollow := by
  cases w with
  | none => exact hf.kept (.deleteItems fun itemId => itemId = row.id)
  | some row' =>
    intro a ha
    obtain ⟨i, hi, hid, hv⟩ := hf a ha
    refine ⟨_, mem_writeRow_some.mpr ⟨i, hi, rfl⟩, ?_⟩
    by_cases hthis : i.id = row.id
    · obtain rfl : i = row := Table.eq_of_key_eq hi hrow hthis
      rw [if_pos rfl]
      rcases hw row' rfl with hsame | hnone
      · exact ⟨hid, hsame.trans hv⟩
      · exact absurd hid.symm (hnone a ha)
    · rw [if_neg hthis]
      exact ⟨hid, hv⟩

theorem mutation {m : ItemMutation} {version : Nat} (hf : db.AttachmentsFollow)
    (h : m.run seen acl db userId = .ok (db', version))
    (hw : ∀ row row', db.items.get? m.itemId = some row → m.write row = some row' →
      row'.vaultId = row.vaultId ∨ ∀ a ∈ db.attachments, a.itemId ≠ row.id) : db'.AttachmentsFollow := by
  obtain ⟨existing, row, hacc, -, rfl⟩ := ItemMutation.run_ok h
  exact hf.writeRow (Table.mem_of_get? hacc.found) fun row' hrow' => hw row row' hacc.found hrow'

end Db.AttachmentsFollow

section Steps

variable {db db' seen acl : Db} {userId : String} {mode : DeploymentMode}

/-- A request on an item: a move needs an item without attachments, unless it stays where it is. -/
def ItemRequest.Refiles (db : Db) : ItemRequest → Prop
  | .move input => ∀ row ∈ db.items.get? input.itemId, row.vaultId ≠ input.targetVaultId →
      ∀ a ∈ db.attachments, a.itemId ≠ row.id
  | _ => True

instance : (r : ItemRequest) → Decidable (r.Refiles db)
  | .move input => inferInstanceAs (Decidable (∀ row ∈ db.items.get? input.itemId, row.vaultId ≠ input.targetVaultId →
      ∀ a ∈ db.attachments, a.itemId ≠ row.id))
  | .create _ | .bulkImport _ | .update _ | .favorite _ _ | .delete _ _ | .restore _ | .permanentDelete _ =>
    inferInstanceAs (Decidable True)

theorem ItemRequest.follow {r : ItemRequest} (hf : db.AttachmentsFollow) (hr : r.Refiles db)
    (h : r.run seen acl db userId = .ok db') : db'.AttachmentsFollow := by
  cases r with
  | create input =>
    obtain ⟨-, -, items, hins, rfl⟩ := createVaultItem_ok h
    exact hf.items_added fun i hi => (Table.mem_insert hins i).mpr (.inl hi)
  | bulkImport input =>
    obtain ⟨-, rfl | ⟨-, -, items, hrows, rfl⟩⟩ := bulkImportVaultItems_ok h
    · exact hf
    · refine hf.items_added fun i hi => ?_
      show i ∈ items.rows
      rw [hrows]
      exact List.mem_append_left _ hi
  | move input =>
    obtain ⟨version, h⟩ := ItemRequest.run_mutation rfl h
    refine hf.mutation h fun row row' hrow hwrite => ?_
    cases hwrite
    exact (eq_or_ne row.vaultId input.targetVaultId).imp Eq.symm (hr row hrow)
  | permanentDelete input =>
    obtain ⟨version, h⟩ := ItemRequest.run_mutation rfl h
    exact hf.mutation h fun row row' _ hwrite => by cases hwrite
  | update input | favorite value input | delete now input | restore input =>
    obtain ⟨version, h⟩ := ItemRequest.run_mutation rfl h
    refine hf.mutation h fun row row' _ hwrite => .inl ?_
    cases hwrite
    rfl

theorem createVaultAttachment_follow {clientId : Option String} {input : CreateAttachmentInput}
    (hf : db.AttachmentsFollow)
    (hsame : ∀ item row, seen.items.get? input.itemId = some item → db.items.get? input.itemId = some row →
      row.vaultId = item.vaultId)
    (h : createVaultAttachment mode seen acl db userId clientId input = .ok db') : db'.AttachmentsFollow := by
  obtain ⟨item, new, attachments, e, hseen, hthere, -, hitem, hv, -, hins, rfl⟩ := createVaultAttachment_ok h
  intro a ha
  rcases (Table.mem_insert hins a).mp ha with ha | rfl
  · exact hf a ha
  · obtain ⟨row, hrow⟩ := Option.isSome_iff_exists.mp hthere
    obtain ⟨hmem, hid⟩ := Table.get?_eq_some.mp hrow
    exact ⟨row, hmem, hid.trans hitem.symm, (hsame item row hseen hrow).trans hv.symm⟩

theorem ItemAttachment.rewrap_itemId {p : RotationPlan} (a : ItemAttachment) : (a.rewrap p).itemId = a.itemId := by
  unfold ItemAttachment.rewrap; cases p.stagedFor .attachment a.id <;> rfl

/-- A rotation writes ciphertexts, and no vault. -/
theorem Finalized.follow {planId : String} {plan : RotationPlan} {vault : Vault} {tx tx' : Versions Db}
    (h : Finalized planId userId plan vault tx tx') (hf : tx.current.AttachmentsFollow) :
    tx'.current.AttachmentsFollow := by
  intro a' ha'
  rw [h.attachments] at ha'
  obtain ⟨a, ha, rfl⟩ := mem_attachmentsAfter.mp ha'
  obtain ⟨i, hi, hid, hv⟩ := hf a ha
  refine ⟨_, by rw [h.items]; exact mem_itemsAfter.mpr ⟨i, hi, rfl⟩, ?_, ?_⟩
  · rw [apply_ite Item.id, Item.reencrypt_id, ite_self, apply_ite ItemAttachment.itemId, ItemAttachment.rewrap_itemId,
      ite_self]
    exact hid
  · rw [apply_ite Item.vaultId, Item.reencrypt_vaultId, ite_self, apply_ite ItemAttachment.vaultId,
      ItemAttachment.rewrap_vaultId, ite_self]
    exact hv

theorem FinalizedInTurn.follow {actorId : String} {ps : List RotationPlan} {es : List SyncEvent} {tx tx' : Versions Db}
    (h : FinalizedInTurn actorId ps es tx tx') (hf : tx.current.AttachmentsFollow) : tx'.current.AttachmentsFollow := by
  induction h with
  | nil tx => exact hf
  | cons hfin _ _ _ _ _ ih => exact ih (hfin.follow hf)

end Steps

/-! ## Every run -/

/-- When a transaction files attachments as their items are: no item with attachments is
moved to another vault, and an attachment is created while its item is in the vault the
request has read it in. -/
def Transaction.Refiles (h : History) : Transaction → Prop
  | item _ request _ _ => request.Refiles h.now
  | createAttachment _ _ input seen _ => ∀ db ∈ h.ago seen, ∀ item ∈ db.items.get? input.itemId,
      ∀ row ∈ h.now.items.get? input.itemId, row.vaultId = item.vaultId
  | _ => True

instance (h : History) : (t : Transaction) → Decidable (t.Refiles h)
  | .item _ request _ _ => inferInstanceAs (Decidable (request.Refiles h.now))
  | .createAttachment _ _ input seen _ => inferInstanceAs (Decidable (∀ db ∈ h.ago seen,
      ∀ item ∈ db.items.get? input.itemId, ∀ row ∈ h.now.items.get? input.itemId, row.vaultId = item.vaultId))
  | .updateAttachment .. | .deleteAttachment .. | .createVault .. | .updateVault .. | .convertVaultType ..
  | .deleteVault .. | .updateVaultMemberRole .. | .addVaultMember .. | .acceptInvitation .. | .registerUser ..
  | .updateVaultKeys .. | .deleteAccount .. | .accounts .. | .cleanupTombstones .. | .pruneSyncEvents ..
  | .createRemovalPlan .. | .createDeparturePlan .. | .readPreparationPage .. | .stageOutputs .. | .abandonPlan ..
  | .recordStale .. | .cleanupRotationPlans .. | .finalizeRemoval .. | .finalizeDeparture .. =>
    inferInstanceAs (Decidable True)

theorem ItemEffect.follow {d : Deployment} {h : History} {t : Transaction} {db' : Db} (he : ItemEffect d h t db')
    (hr : t.Refiles h) (hf : h.now.AttachmentsFollow) : db'.AttachmentsFollow := by
  cases he with
  | kept hk => exact hf.kept hk
  | request hseen hrun => exact ItemRequest.follow hf hr hrun
  | attached hseen hrun =>
    exact createVaultAttachment_follow hf (fun item row hitem hrow => hr _ hseen item hitem row hrow) hrun
  | finalizes hps hturn hsame => exact (hturn.follow hf).kept hsame.kept

/-- **Attachments follow their items** in every run in which no item with attachments is moved
to another vault and no item changes its vault while an attachment of it is being created. -/
theorem attachments_follow (d : Deployment) (h : History)
    (hh : (server d).ReachableUnder (fun h t => t.Refiles h) h) : ∀ db ∈ h.states, RewrapsItsItems db := by
  suffices hall : ∀ db ∈ h.states, db.AttachmentsFollow from fun db hdb => (hall db hdb).rewraps
  refine System.ReachableUnder.invariant (fun h => ∀ db ∈ h.states, db.AttachmentsFollow) ?_ ?_ hh
  · rintro _ rfl db hdb
    obtain rfl : db = Db.empty := by simpa [History.states] using hdb
    exact fun a ha => absurd ha (Table.not_mem_empty a)
  · intro h t h' _ hI hr hstep db hdb
    obtain ⟨db', hrun, rfl⟩ := Option.map_eq_some_iff.mp hstep
    rcases List.mem_cons.mp hdb with rfl | hdb
    · exact (Transaction.itemEffect hrun).follow hr (hI h.now (by simp [History.states]))
    · exact hI db hdb

/-! ## A move that comes first, and one that comes last -/

/-- Ann has two vaults and an item in the first one. -/
def itemInV : List Transaction :=
  [.accounts annAndBob .empty theirTeam,
   .createVault "ann" "v" "k-v" ⟨some "v", "Vault", .personal, "key-v", none, none, none⟩ 0,
   .createVault "ann" "w" "k-w" ⟨some "w", "Other", .personal, "key-w", none, none, none⟩ 0,
   .item "ann" (.create ⟨"item", "v", .login, "data", "iv", "alg", none⟩) 0 0]

def movedToW : Transaction := .item "ann" (.move ⟨"item", "v", "w", "data-w", "iv-w", "alg", none, none⟩) 0 0

def attached : Transaction :=
  .createAttachment "ann" none ⟨"item", "attachment", "key", "iv", "alg", 1, "name", "iv", "alg", none⟩ 0 0

/-- The item is moved and then gets its attachment. -/
theorem attachments_follow_moved : ∃ h, (server selfHosted).run ⟨Db.empty, []⟩ (itemInV ++ [movedToW, attached]) = some h ∧
    (h.now.attachments.any fun a => a.vaultId = "w") = true ∧ ∀ db ∈ h.states, RewrapsItsItems db := by
  have hrun : ((server selfHosted).runUnder (fun h t => t.Refiles h) ⟨Db.empty, []⟩
      (itemInV ++ [movedToW, attached])).any (fun h => h.now.attachments.any fun a => a.vaultId = "w") = true := by
    decide +kernel
  rw [Option.any_eq_true] at hrun
  obtain ⟨h, hrun, hfiled⟩ := hrun
  exact ⟨h, System.run_of_runUnder hrun, hfiled, attachments_follow selfHosted h (.runUnder (.init rfl) hrun)⟩

/-- The item gets its attachment and is moved: a rotation of its vault misses the attachment. -/
theorem moved_item_leaves_attachment : ¬ ∀ (d : Deployment) (h : History), (server d).Reachable h →
    ∀ db ∈ h.states, RewrapsItsItems db := by
  intro hall
  have hrun : ((server selfHosted).run ⟨Db.empty, []⟩ (itemInV ++ [attached, movedToW])).any (fun h =>
      (h.now.attachments.any fun a => a.itemId = "item" && a.vaultId = "v") &&
        decide (∀ i ∈ h.now.items, i.vaultId ≠ "v")) = true := by
    decide +kernel
  rw [Option.any_eq_true] at hrun
  obtain ⟨h, hrun, hcheck⟩ := hrun
  simp only [Bool.and_eq_true, decide_eq_true_eq, Table.any_eq_true] at hcheck
  obtain ⟨⟨a, ha, -, hv⟩, hnone⟩ := hcheck
  obtain ⟨i, hi, -, hvault⟩ := (hall selfHosted h (.run (.init rfl) hrun) h.now (by simp [History.states])).follow a ha
  exact hnone i hi (hvault.trans hv)

end Bittery
