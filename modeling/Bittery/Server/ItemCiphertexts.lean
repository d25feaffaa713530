/-
Whether the ciphertext of an item is stored as a unit.

To open an item a client needs, besides the key of the vault, its data, its iv and its
algorithm as they were made together, and the version and the user they are bound to. A
creation, an import and a move write the five together. A rotation writes three of them,
sealed under the two that its plan has recorded of the item. An update writes whichever of
the first three it is given and binds them to itself, so one that is not given all three
leaves a tuple nobody has written.

The ledger is the server with what accepted requests and finalizations have written beside it.
-/
import Bittery.Server.ItemRows
import Bittery.Server.Rotation.PlanSafety

namespace Bittery

open Lib

structure ItemCiphertext where
  itemId : String
  encryptedData : String
  encryptionIv : String
  encryptionAlgorithm : String
  encryptionVersion : Nat
  encryptedByUserId : String
deriving DecidableEq, Repr

def Item.ciphertext (i : Item) : ItemCiphertext :=
  ⟨i.id, i.encryptedData, i.encryptionIv, i.encryptionAlgorithm, i.encryptionVersion, i.encryptedByUserId⟩

/-! ## What is written whole -/

/-- What an accepted request on `db` writes whole. -/
def ItemRequest.writes (userId : String) (db : Db) : ItemRequest → List ItemCiphertext
  | .create input =>
    [⟨input.itemId, input.encryptedData, input.encryptionIv, input.encryptionAlgorithm, 1, userId⟩]
  | .bulkImport input => input.items.map fun i =>
    ⟨i.item.itemId, i.item.encryptedData, i.item.encryptionIv, i.item.encryptionAlgorithm, 1, userId⟩
  | .update input =>
    match input.encryptedData, input.encryptionIv, input.encryptionAlgorithm with
    | some data, some iv, some algorithm => (db.items.get? input.itemId).toList.map fun row =>
        ⟨row.id, data, iv, algorithm, row.version + 1, userId⟩
    | _, _, _ => []
  | .move input => (db.items.get? input.itemId).toList.map fun row =>
      ⟨row.id, input.encryptedData, input.encryptionIv, input.encryptionAlgorithm, row.version + 1, userId⟩
  | _ => []

/-- The version and the user an item was bound to when the plan was made. -/
def ManifestRecord.binding (m : ManifestRecord) : Option (Nat × String) :=
  match m.payload with
  | .item _ _ _ _ _ encryptionVersion encryptedByUserId => some (encryptionVersion, encryptedByUserId)
  | _ => none

/-- The items of a plan as they are staged, under the bindings of its manifest. -/
def RotationPlan.itemRecords (p : RotationPlan) : List ItemCiphertext :=
  p.manifest.rows.flatMap fun m => m.binding.toList.flatMap fun b => (p.stagedFor .item m.entityId).toList.map fun s =>
    ⟨m.entityId, s.get "encryptedData", s.get "encryptionIv", s.get "encryptionAlgorithm", b.1, b.2⟩

/-- What a transaction that commits writes whole. -/
def Transaction.writes (d : Deployment) (h : History) : Transaction → List ItemCiphertext
  | item userId request _ _ => request.writes userId h.now
  | t => (t.finalized d h).flatMap RotationPlan.itemRecords

/-- The server and everything that was written whole. -/
structure Ledger where
  history : History
  written : List ItemCiphertext

def ledger (d : Deployment) : System Ledger Transaction where
  init l := l = ⟨⟨Db.empty, []⟩, []⟩
  step l t := ((server d).step l.history t).map fun h => ⟨h, l.written ++ t.writes d l.history⟩

/-- **Every stored ciphertext was written as a unit.** -/
def Ledger.Whole (l : Ledger) : Prop := ∀ i ∈ l.history.now.items, i.ciphertext ∈ l.written

instance (l : Ledger) : Decidable l.Whole :=
  inferInstanceAs (Decidable (∀ i ∈ l.history.now.items, i.ciphertext ∈ l.written))

/-! ## When requests write whole ciphertexts -/

/-- An update is given all of data, iv and algorithm, or none of them. -/
def UpdateItemInput.Whole (input : UpdateItemInput) : Prop :=
  input.encryptedData.isSome = input.encryptionIv.isSome ∧ input.encryptedData.isSome = input.encryptionAlgorithm.isSome

/-- The manifest records of a plan that match the present items by id and version match them
by their bindings too. -/
def RotationPlan.BindsItems (p : RotationPlan) (db : Db) : Prop :=
  ∀ i ∈ db.items, i.vaultId = p.vaultId → ∀ m ∈ p.manifest.get? (.item, i.id), m.expectedVersion = i.version →
    m.binding = some (i.encryptionVersion, i.encryptedByUserId)

def Transaction.WritesWhole (h : History) : Transaction → Prop
  | item _ (.update input) _ _ => input.Whole
  | finalizeRemoval _ _ _ _ _ planId _ snap => ∀ snapshot ∈ h.ago snap, ∀ p ∈ snapshot.plans.get? planId,
      p.BindsItems h.now
  | finalizeDeparture _ _ _ _ _ _ plans _ snap => ∀ snapshot ∈ h.ago snap, ∀ x ∈ plans,
      ∀ p ∈ snapshot.plans.get? x.1, p.BindsItems h.now
  | _ => True

instance (input : UpdateItemInput) : Decidable input.Whole := inferInstanceAs (Decidable (_ ∧ _))

instance (p : RotationPlan) (db : Db) : Decidable (p.BindsItems db) :=
  inferInstanceAs (Decidable (∀ i ∈ db.items, i.vaultId = p.vaultId → ∀ m ∈ p.manifest.get? (.item, i.id),
    m.expectedVersion = i.version → m.binding = some (i.encryptionVersion, i.encryptedByUserId)))

instance (h : History) : (t : Transaction) → Decidable (t.WritesWhole h)
  | .item _ (.update input) _ _ => inferInstanceAs (Decidable input.Whole)
  | .finalizeRemoval _ _ _ _ _ planId _ snap => inferInstanceAs (Decidable (∀ snapshot ∈ h.ago snap,
      ∀ p ∈ snapshot.plans.get? planId, p.BindsItems h.now))
  | .finalizeDeparture _ _ _ _ _ _ plans _ snap => inferInstanceAs (Decidable (∀ snapshot ∈ h.ago snap,
      ∀ x ∈ plans, ∀ p ∈ snapshot.plans.get? x.1, p.BindsItems h.now))
  | .item _ (.create _) _ _ | .item _ (.bulkImport _) _ _ | .item _ (.favorite _ _) _ _ | .item _ (.delete _ _) _ _
  | .item _ (.restore _) _ _ | .item _ (.move _) _ _ | .item _ (.permanentDelete _) _ _ | .createAttachment ..
  | .updateAttachment .. | .deleteAttachment .. | .createVault .. | .updateVault .. | .convertVaultType ..
  | .deleteVault .. | .updateVaultMemberRole .. | .addVaultMember .. | .acceptInvitation .. | .registerUser ..
  | .updateVaultKeys .. | .deleteAccount .. | .accounts .. | .cleanupTombstones .. | .pruneSyncEvents ..
  | .createRemovalPlan .. | .createDeparturePlan .. | .readPreparationPage .. | .stageOutputs .. | .abandonPlan ..
  | .recordStale .. | .cleanupRotationPlans .. => inferInstanceAs (Decidable True)

/-! ## One step -/

section Step

variable {d : Deployment} {h : History} {db db' seen acl : Db} {userId : String} {t : Transaction}

/-- What a request on an existing item leaves: the other rows, and the one it has written. -/
theorem ItemMutation.ciphertexts {m : ItemMutation} {version : Nat} {written : List ItemCiphertext}
    (hold : ∀ i ∈ db.items, i.ciphertext ∈ written) (h : m.run seen acl db userId = .ok (db', version))
    (hw : ∀ row row', db.items.get? m.itemId = some row → m.write row = some row' →
      { row' with id := row.id }.ciphertext ∈ written) : ∀ i ∈ db'.items, i.ciphertext ∈ written := by
  obtain ⟨existing, row, hacc, -, rfl⟩ := ItemMutation.run_ok h
  intro i hi
  have hi : i ∈ (writeRow db row (m.write row)).items := hi
  cases hwrite : m.write row with
  | none =>
    rw [hwrite] at hi
    exact hold i (Table.mem_deleteWhere.mp hi).1
  | some row' =>
    rw [hwrite] at hi
    obtain ⟨r, hr, rfl⟩ := mem_writeRow_some.mp hi
    split
    · next hid =>
      obtain rfl : r = row := Table.eq_of_key_eq hr (Table.mem_of_get? hacc.found) hid
      exact hw r row' hacc.found hwrite
    · exact hold r hr

/-- A request leaves ciphertexts that were there or that it has written whole. -/
theorem ItemRequest.ciphertexts {r : ItemRequest} {old : List ItemCiphertext} (hr : ∀ input, r = .update input → input.Whole)
    (hold : ∀ i ∈ db.items, i.ciphertext ∈ old) (h : r.run seen acl db userId = .ok db') :
    ∀ i ∈ db'.items, i.ciphertext ∈ old ++ r.writes userId db := by
  have hkept : ∀ i ∈ db.items, i.ciphertext ∈ old ++ r.writes userId db := fun i hi => List.mem_append_left _ (hold i hi)
  cases r with
  | create input =>
    obtain ⟨-, -, items, hins, rfl⟩ := createVaultItem_ok h
    intro i hi
    rcases (Table.mem_insert hins i).mp hi with hi | rfl
    · exact hkept i hi
    · exact List.mem_append_right _ (List.mem_singleton_self _)
  | bulkImport input =>
    obtain ⟨-, rfl | ⟨-, -, items, hrows, rfl⟩⟩ := bulkImportVaultItems_ok h
    · exact hkept
    · intro i hi
      have hi : i ∈ items.rows := hi
      rw [hrows, List.mem_append, importedItems, List.mem_map] at hi
      rcases hi with hi | ⟨x, hx, rfl⟩
      · exact hkept i hi
      · exact List.mem_append_right _ (List.mem_map.mpr ⟨x, hx, rfl⟩)
  | update input =>
    obtain ⟨version, h⟩ := ItemRequest.run_mutation rfl h
    refine ItemMutation.ciphertexts hkept h fun row row' hrow hwrite => ?_
    have hrow : db.items.get? input.itemId = some row := hrow
    obtain ⟨hiv, halg⟩ := hr input rfl
    cases hwrite
    cases hdata : input.encryptedData with
    | none =>
      -- Nothing is given: the tuple stays.
      rw [hdata] at hiv halg
      rw [Option.isSome_none, eq_comm, Option.isSome_eq_false_iff, Option.isNone_iff_eq_none] at hiv halg
      have hsame := hkept row (Table.mem_of_get? hrow)
      simpa [Item.ciphertext, hdata, hiv, halg] using hsame
    | some data =>
      rw [hdata] at hiv halg
      rw [Option.isSome_some, eq_comm, Option.isSome_iff_exists] at hiv halg
      obtain ⟨iv, hiv⟩ := hiv
      obtain ⟨algorithm, halg⟩ := halg
      refine List.mem_append_right _ ?_
      simp [writes, Item.ciphertext, hdata, hiv, halg, hrow]
  | move input =>
    obtain ⟨version, h⟩ := ItemRequest.run_mutation rfl h
    refine ItemMutation.ciphertexts hkept h fun row row' hrow hwrite => List.mem_append_right _ ?_
    have hrow : db.items.get? input.itemId = some row := hrow
    cases hwrite
    simp [writes, Item.ciphertext, hrow]
  | permanentDelete input =>
    obtain ⟨version, h⟩ := ItemRequest.run_mutation rfl h
    exact ItemMutation.ciphertexts hkept h fun row row' _ hwrite => by cases hwrite
  | favorite value input | delete now input | restore input =>
    obtain ⟨version, h⟩ := ItemRequest.run_mutation rfl h
    refine ItemMutation.ciphertexts hkept h fun row row' hrow hwrite => ?_
    cases hwrite
    exact hkept row (Table.mem_of_get? hrow)

/-- An item of a finalized vault is sealed as staged, under its binding. -/
theorem mem_itemRecords {p : RotationPlan} {i : Item} {m : ManifestRecord} {s : StagedRecord}
    (hm : p.manifest.get? (.item, i.id) = some m) (hs : p.stagedFor .item i.id = some s)
    (hb : m.binding = some (i.encryptionVersion, i.encryptedByUserId)) : (i.withOutput s).ciphertext ∈ p.itemRecords := by
  obtain ⟨hmem, hkey⟩ := Table.get?_eq_some.mp hm
  have hid : m.entityId = i.id := congrArg Prod.snd hkey
  simp only [RotationPlan.itemRecords, List.mem_flatMap, List.mem_map, Option.mem_toList]
  exact ⟨m, hmem, _, hb, s, by rw [hid, hs], by rw [hid]; rfl⟩

theorem Finalized.ciphertexts {planId : String} {plan : RotationPlan} {vault : Vault} {tx tx' : Versions Db}
    {written : List ItemCiphertext} (h : Finalized planId userId plan vault tx tx') (hb : plan.BindsItems tx.current)
    (hold : ∀ i ∈ tx.current.items, i.ciphertext ∈ written) (hplan : ∀ c ∈ plan.itemRecords, c ∈ written) :
    ∀ i ∈ tx'.current.items, i.ciphertext ∈ written := by
  intro i' hi'
  rw [h.items] at hi'
  obtain ⟨i, hi, rfl⟩ := mem_itemsAfter.mp hi'
  split
  · next hw =>
    have hv := reencrypts_vault hw.1
    obtain ⟨m, s, hm, hversion, hs⟩ := h.covered.items i hw.2 hv
    rw [Item.reencrypt_eq hs]
    exact hplan _ (mem_itemRecords hm hs (hb i hi hv m hm hversion))
  · exact hold i hi

/-- Plans of other vaults leave the items of a plan alone. -/
theorem RotationPlan.BindsItems.congr {p : RotationPlan} (hb : p.BindsItems db) (hsame : SameVault p.vaultId db db') :
    p.BindsItems db' :=
  fun i hi hv => hb i ((hsame.items i hv).mp hi) hv

theorem FinalizedInTurn.ciphertexts {actorId : String} {ps : List RotationPlan} {es : List SyncEvent}
    {tx tx' : Versions Db} {written : List ItemCiphertext} (h : FinalizedInTurn actorId ps es tx tx')
    (hb : ∀ p ∈ ps, p.BindsItems tx.current) (hold : ∀ i ∈ tx.current.items, i.ciphertext ∈ written)
    (hplans : ∀ p ∈ ps, ∀ c ∈ p.itemRecords, c ∈ written) : ∀ i ∈ tx'.current.items, i.ciphertext ∈ written := by
  induction h with
  | nil tx => exact hold
  | cons hf _ _ hvault _ _ ih =>
    refine ih (fun p hp => ?_) (hf.ciphertexts (hb _ List.mem_cons_self) hold (hplans _ List.mem_cons_self))
      fun p hp => hplans p (List.mem_cons_of_mem _ hp)
    exact (hb p (List.mem_cons_of_mem _ hp)).congr (hf.others _ (hvault p hp)).2

/-- A plan that a transaction finalizes is one that it names. -/
theorem Transaction.WritesWhole.finalized (ht : t.WritesWhole h) {p : RotationPlan} (hp : p ∈ t.finalized d h) :
    p.BindsItems h.now := by
  cases t with
  | finalizeRemoval begun now actorId vaultId targetId planId rotationId snap =>
    cases hsnap : h.ago snap with
    | none => simp [Transaction.finalized, hsnap] at hp
    | some snapshot =>
      simp only [Transaction.finalized, hsnap, Option.elim_some] at hp
      split at hp
      · exact ht snapshot hsnap p (Option.mem_toList.mp hp)
      · cases hp
  | finalizeDeparture begun now teamId actorId targetId intent plans personalTeamId snap =>
    cases hsnap : h.ago snap with
    | none => simp [Transaction.finalized, hsnap] at hp
    | some snapshot =>
      simp only [Transaction.finalized, hsnap, Option.elim_some] at hp
      split at hp
      · obtain ⟨x, hx, hget⟩ := List.mem_filterMap.mp hp
        exact ht snapshot hsnap x hx p hget
      · cases hp
  | _ => cases hp

theorem Transaction.mem_writes_of_finalized {p : RotationPlan} {c : ItemCiphertext} (hp : p ∈ t.finalized d h)
    (hc : c ∈ p.itemRecords) : c ∈ t.writes d h := by
  cases t with
  | item => cases hp
  | _ => exact List.mem_flatMap.mpr ⟨p, hp, hc⟩

theorem ItemEffect.ciphertexts {old : List ItemCiphertext} (he : ItemEffect d h t db') (ht : t.WritesWhole h)
    (hold : ∀ i ∈ h.now.items, i.ciphertext ∈ old) : ∀ i ∈ db'.items, i.ciphertext ∈ old ++ t.writes d h := by
  have hkept : ∀ i ∈ h.now.items, i.ciphertext ∈ old ++ t.writes d h := fun i hi => List.mem_append_left _ (hold i hi)
  cases he with
  | kept hk => exact fun i hi => hkept i (hk.items i hi)
  | request hseen hrun =>
    refine ItemRequest.ciphertexts ?_ hold hrun
    rintro input rfl
    exact ht
  | attached hseen hrun =>
    obtain ⟨_, _, _, _, -, -, -, -, -, -, -, rfl⟩ := createVaultAttachment_ok hrun
    exact hkept
  | finalizes hps hturn hsame =>
    intro i hi
    rw [hsame.items] at hi
    exact hturn.ciphertexts (fun p hp => ht.finalized (hps p hp)) hkept
      (fun p hp c hc => List.mem_append_right _ (Transaction.mem_writes_of_finalized (hps p hp) hc)) i hi

end Step

/-! ## Every run -/

/-- **The ciphertext of an item is written as a unit**, in every run in which an update is given
all of data, iv and algorithm or none of them, and a finalized plan has recorded the items it
re-encrypts under the bindings they have. -/
theorem ciphertexts_whole (d : Deployment) (l : Ledger)
    (hl : (ledger d).ReachableUnder (fun l t => t.WritesWhole l.history) l) : l.Whole := by
  refine System.ReachableUnder.invariant Ledger.Whole ?_ ?_ hl
  · rintro _ rfl i hi
    exact absurd hi (Table.not_mem_empty i)
  · intro l t l' _ hI ht hstep
    obtain ⟨h', hserver, rfl⟩ := Option.map_eq_some_iff.mp hstep
    obtain ⟨db', hrun, rfl⟩ := Option.map_eq_some_iff.mp hserver
    exact (Transaction.itemEffect hrun).ciphertexts ht hI

/-! ## A whole update and a rotation, and an update in part -/

def editedItem (iv algorithm : Option String) : List Transaction :=
  sharedVault ++
    [.item "ann" (.create ⟨"item", "v", .login, "data", "iv", "alg", none⟩) 0 0,
     .item "ann" (.update ⟨"item", some "data-2", iv, algorithm, some 1, none⟩) 0 0]

/-- Bob is removed from the vault with the item. -/
def rotatedItem : List Transaction :=
  preparedRemoval ++
    [.stageOutputs 0 "plan" "ann" .item [⟨"item", ⟨"output", some [("encryptedData", "data-3"), ("encryptionIv", "iv-3"),
       ("encryptionAlgorithm", "alg-3")]⟩⟩],
     .finalizeRemoval 0 0 "ann" "v" "bob" "plan" "rotation" 0]

theorem ciphertexts_whole_rotated : ∃ l, (ledger selfHosted).run ⟨⟨Db.empty, []⟩, []⟩
    (editedItem (some "iv-2") (some "alg-2") ++ rotatedItem) = some l ∧
      l.history.now.items.rows.map Item.ciphertext = [⟨"item", "data-3", "iv-3", "alg-3", 2, "ann"⟩] ∧ l.Whole := by
  have hrun : ((ledger selfHosted).runUnder (fun l t => t.WritesWhole l.history) ⟨⟨Db.empty, []⟩, []⟩
      (editedItem (some "iv-2") (some "alg-2") ++ rotatedItem)).any (fun l =>
        l.history.now.items.rows.map Item.ciphertext = [⟨"item", "data-3", "iv-3", "alg-3", 2, "ann"⟩]) = true := by
    decide +kernel
  rw [Option.any_eq_true] at hrun
  obtain ⟨l, hrun, hitem⟩ := hrun
  exact ⟨l, System.run_of_runUnder hrun, of_decide_eq_true hitem,
    ciphertexts_whole selfHosted l (.runUnder (.init rfl) hrun)⟩

/-- The data of an item is replaced alone, and keeps the iv of the data before. -/
theorem data_updated_alone : ¬ ∀ (d : Deployment) (l : Ledger), (ledger d).Reachable l → l.Whole := by
  intro hall
  have hrun : ((ledger selfHosted).run ⟨⟨Db.empty, []⟩, []⟩ (editedItem none none)).any
      (fun l => decide (¬ l.Whole)) = true := by decide +kernel
  rw [Option.any_eq_true] at hrun
  obtain ⟨l, hrun, hcheck⟩ := hrun
  exact of_decide_eq_true hcheck (hall selfHosted l (.run (.init rfl) hrun))

end Bittery
