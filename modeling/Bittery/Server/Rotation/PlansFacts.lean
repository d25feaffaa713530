/-
What one finalization does to the database, exactly: which rows it has seen and found
unchanged, and the table each write leaves. Everything proved about rotations rests on
`finalizeLockedPlan_ok`.

Then the two directions of the coverage checks: after them, what the transaction sees of
the vault is what the manifest lists, and every record of the manifest has a staged output.
-/
import Bittery.Lib.Except
import Bittery.Server.Rotation.Plans

namespace Bittery

open Lib

variable {tx tx' : Versions Db} {plan : RotationPlan} {vault : Vault} {now : Time} {planId userId rotationId : String}

/-! ## Events -/

/-- Events as they are recorded from sequence number `n` on. -/
def numbered (n : Nat) : List SyncEvent → List SyncEvent
  | [] => []
  | e :: es => { e with seq := n } :: numbered (n + 1) es

theorem foldl_appendEvent (es : List SyncEvent) (db : Db) :
    es.foldl Db.appendEvent db =
      { db with events := db.events ++ numbered db.nextSeq es, nextSeq := db.nextSeq + es.length } := by
  induction es generalizing db with
  | nil => simp [numbered]
  | cons e es ih =>
    rw [List.foldl_cons, ih]
    simp only [Db.appendEvent, numbered, List.append_assoc, List.singleton_append, List.length_cons, Db.mk.injEq,
      true_and]
    omega

/-! ## The statements one by one -/

theorem orConflict_ok {α : Type} {x : Option α} {a : α} : orConflict x = .ok a ↔ x = some a := by
  cases x <;> simp [orConflict]

theorem lockPlanPolicy_ok (h : lockPlanPolicy tx now planId = .ok plan) :
    tx.snapshot.plans.get? planId = some plan ∧ plan.state.isActive = true := by
  unfold lockPlanPolicy at h
  split at h
  · cases h
  next p hp =>
  simp only [Except.bind_ok_iff, Except.pure_ok_iff] at h
  obtain ⟨⟨⟩, -, rfl⟩ := h
  rw [Option.filter_eq_some_iff, Bool.and_eq_true] at hp
  exact ⟨hp.1, hp.2.1⟩

/-- What the checks at the start of a finalization have seen: the active plan of its
initiator, who holds a key, and the vault, both rows unchanged. -/
structure Locked (tx : Versions Db) (planId userId : String) (plan : RotationPlan) (vault : Vault) : Prop where
  foundPlan : tx.snapshot.plans.get? planId = some plan
  initiator : plan.initiatorUserId = userId
  holdsKey : tx.snapshot.holdsKey userId plan.vaultId = true
  active : plan.state.isActive = true
  foundVault : tx.snapshot.vaults.get? plan.vaultId = some vault
  planCurrent : plan ∈ tx.current.plans
  vaultCurrent : vault ∈ tx.current.vaults

theorem lockPlanAndVault_ok (h : lockPlanAndVault tx now planId userId = .ok (plan, vault)) :
    Locked tx planId userId plan vault := by
  unfold lockPlanAndVault at h
  split at h
  · cases h
  next p hp =>
  simp only [Except.bind_ok_iff, Except.guard_ok_iff, orConflict_ok] at h
  obtain ⟨⟨⟩, hpl, hact, h⟩ := h
  split at h
  · cases h
  next v hv =>
  simp only [Except.bind_ok_iff, orConflict_ok, Except.pure_ok_iff, Prod.mk.injEq] at h
  obtain ⟨⟨⟩, hvl, rfl, rfl⟩ := h
  simp only [findPlan, Option.filter_eq_some_iff, Bool.and_eq_true, decide_eq_true_eq] at hp
  simp only [Bool.or_eq_true, Bool.not_eq_true, not_or] at hact
  obtain ⟨hget, hinit, hkey⟩ := hp
  refine ⟨hget, hinit, hkey, by simpa using hact.1, hv, ?_, ?_⟩
  · exact TableOf.lock_eq_some.mp hpl _ (Table.mem_of_get? hget) (decide_eq_true (Table.key_of_get? hget))
  · exact TableOf.lock_eq_some.mp hvl _ (Table.mem_of_get? hv) (decide_eq_true (Table.key_of_get? hv))

/-! ## What an applied plan leaves

Each table is a function of the plan, of the rows the transaction sees (`seen`) and of the
rows there are: a row that is not seen is not written. -/

namespace RotationPlan

variable (p : RotationPlan)

def keysAfter (seen t : Table VaultKey.id) : Table VaultKey.id :=
  (t.deleteWhere fun k => p.excludes k && decide (k ∈ seen)).updateWhere
    (fun k => p.rewrapsKey k && decide (k ∈ seen.deleteWhere p.excludes)) (VaultKey.rewrap p) VaultKey.rewrap_id

def itemsAfter (seen t : Table Item.id) : Table Item.id :=
  t.updateWhere (fun i => p.reencrypts i && decide (i ∈ seen)) (Item.reencrypt p) Item.reencrypt_id

def attachmentsAfter (seen t : Table ItemAttachment.id) : Table ItemAttachment.id :=
  t.updateWhere (fun a => p.rewrapsAttachment a && decide (a ∈ seen)) (ItemAttachment.rewrap p) ItemAttachment.rewrap_id

def vaultsAfter (keyVersion : Nat) (seen t : Table Vault.id) : Table Vault.id :=
  t.updateWhere (fun v => decide (v.id = p.vaultId) && decide (v ∈ seen)) (fun v => { v with keyVersion := keyVersion })
    fun _ => rfl

theorem completed_id (r : RotationPlan) : ({ r with state := .completed } : RotationPlan).id = r.id := rfl

def plansAfter (seen t : Table RotationPlan.id) : Table RotationPlan.id :=
  t.updateWhere (fun r => decide (r.id = p.id) && decide (r ∈ seen)) (fun r => { r with state := .completed })
    completed_id

/-- The database after the plan. -/
def after (keyVersion : Nat) (rotations : Table RotationRecord.id) (seen db : Db) : Db :=
  { db with
    vaultKeys := p.keysAfter seen.vaultKeys db.vaultKeys
    items := p.itemsAfter seen.items db.items
    attachments := p.attachmentsAfter seen.attachments db.attachments
    vaults := p.vaultsAfter keyVersion seen.vaults db.vaults
    rotations := rotations
    plans := p.plansAfter seen.plans db.plans }

end RotationPlan

/-- The writes of a plan: the rows it writes were unchanged, and both versions of the
database are those after it. -/
structure Applied (plan : RotationPlan) (keyVersion : Nat) (rotationId : String) (tx tx' : Versions Db) : Prop where
  keys : ∀ k ∈ tx.snapshot.vaultKeys, plan.excludes k = true ∨ plan.rewrapsKey k = true → k ∈ tx.current.vaultKeys
  items : ∀ i ∈ tx.snapshot.items, plan.reencrypts i = true → i ∈ tx.current.items
  attachments : ∀ a ∈ tx.snapshot.attachments, plan.rewrapsAttachment a = true → a ∈ tx.current.attachments
  result : ∃ s c, tx.snapshot.rotations.insert (rotationRecord plan rotationId keyVersion) = some s ∧
    tx.current.rotations.insert (rotationRecord plan rotationId keyVersion) = some c ∧
    tx' = ⟨plan.after keyVersion s tx.snapshot tx.snapshot, plan.after keyVersion c tx.snapshot tx.current⟩

theorem applyPlan_ok (h : applyPlan tx plan vault rotationId = .ok tx') :
    Applied plan (vault.keyVersion + 1) rotationId tx tx' := by
  simp only [applyPlan, Except.bind_ok_iff, orConflict_ok, TableOf.delete_eq_some, TableOf.update_eq_some] at h
  obtain ⟨_, ⟨hdel, rfl⟩, _, ⟨hmem, rfl⟩, _, ⟨hitem, rfl⟩, _, ⟨hatt, rfl⟩, _, ⟨hvault, rfl⟩, h⟩ := h
  split at h
  · cases h
  next tx₁ hins =>
  rw [TableOf.insert_eq_some] at hins
  obtain ⟨s, c, hs, hc, rfl⟩ := hins
  simp only [orConflict_ok, TableOf.update_eq_some] at h
  obtain ⟨hplan, rfl⟩ := h
  refine ⟨fun k hk hp => ?_, hitem, hatt, s, c, hs, hc, ?_⟩
  · by_cases hex : plan.excludes k = true
    · exact hdel k hk hex
    · have hrw : plan.rewrapsKey k = true := hp.resolve_left hex
      have hseen : k ∈ tx.snapshot.vaultKeys.deleteWhere plan.excludes :=
        Table.mem_deleteWhere.mpr ⟨hk, by simpa using hex⟩
      exact (Table.mem_deleteWhere.mp (hmem k hseen hrw)).1
  · -- A table is seen as it is in the snapshot, so there "seen" is no condition.
    have hkeys : plan.keysAfter tx.snapshot.vaultKeys tx.snapshot.vaultKeys =
        (tx.snapshot.vaultKeys.deleteWhere plan.excludes).updateWhere plan.rewrapsKey (VaultKey.rewrap plan)
          VaultKey.rewrap_id := by
      unfold RotationPlan.keysAfter
      rw [Table.deleteWhere_mem_self, Table.updateWhere_mem_self]
    simp only [RotationPlan.after, hkeys, RotationPlan.itemsAfter, RotationPlan.attachmentsAfter,
      RotationPlan.vaultsAfter, RotationPlan.plansAfter, Table.updateWhere_mem_self, Db.vaultKeysTable, Db.itemsTable,
      Db.attachmentsTable, Db.vaultsTable, Db.rotationsTable, Db.plansTable]
    rfl

/-! ## What the checks of a finalization establish -/

theorem stagedFor_of_complete (hc : plan.isComplete = true) {m : ManifestRecord} (hm : m ∈ plan.manifest) :
    ∃ s, plan.stagedFor m.kind m.entityId = some s := by
  have hall : m.kind ∈ ManifestKind.all := by cases m.kind <;> decide
  have hnone := List.all_eq_true.mp hc _ hall
  rw [List.isEmpty_iff] at hnone
  cases hs : plan.stagedFor m.kind m.entityId with
  | some s => exact ⟨s, rfl⟩
  | none =>
    have hs' : plan.staged.get? m.key = none := hs
    have : m ∈ plan.missing m.kind := by simp [RotationPlan.missing, hm, hs']
    rw [hnone] at this
    cases this

/-- The rows of a vault, given by their ids and versions, and the manifest records of their
kind are in step. -/
theorem versionsStale_eq_false {kind : ManifestKind} {rows : List (String × Nat)} :
    plan.versionsStale kind rows = false ↔
      (∀ m ∈ plan.manifest, m.kind = kind → (m.entityId, m.expectedVersion) ∈ rows) ∧
        ∀ r ∈ rows, ∃ m, plan.manifest.get? (kind, r.1) = some m ∧ m.expectedVersion = r.2 := by
  unfold RotationPlan.versionsStale
  rw [Bool.or_eq_false_iff, List.any_eq_false, List.any_eq_false]
  refine and_congr (forall_congr' fun m => ?_) (forall_congr' fun r => forall_congr' fun _ => ?_)
  · simp [Table.mem_rows]
  · simp [Option.any_eq_true]

/-- What the transaction sees of the vault is what the plan was made for: each remaining
key, each item and each attachment is in the manifest at its present version and has a
staged output, and the manifest lists nothing else. -/
structure Covered (db : Db) (plan : RotationPlan) (vault : Vault) : Prop where
  keyVersion : vault.keyVersion = plan.expectedKeyVersion
  keys : ∀ k ∈ db.vaultKeys, k.vaultId = plan.vaultId → some k.userId ≠ plan.excludedUserId →
    (db.users.get? k.userId).isSome = true → ∃ s, plan.stagedFor .member k.userId = some s
  items : ∀ i ∈ db.items, i.vaultId = plan.vaultId →
    ∃ m s, plan.manifest.get? (.item, i.id) = some m ∧ m.expectedVersion = i.version ∧
      plan.stagedFor .item i.id = some s
  attachments : ∀ a ∈ db.attachments, a.vaultId = plan.vaultId →
    ∃ m s, plan.manifest.get? (.attachment, a.id) = some m ∧ m.expectedVersion = a.envelopeVersion ∧
      plan.stagedFor .attachment a.id = some s
  manifestKeys : ∀ m ∈ plan.manifest, m.kind = .member →
    ∃ k ∈ db.vaultKeys, k.vaultId = plan.vaultId ∧ some k.userId ≠ plan.excludedUserId ∧ k.userId = m.entityId
  manifestItems : ∀ m ∈ plan.manifest, m.kind = .item →
    ∃ i ∈ db.items, i.vaultId = plan.vaultId ∧ i.id = m.entityId ∧ i.version = m.expectedVersion
  manifestAttachments : ∀ m ∈ plan.manifest, m.kind = .attachment →
    ∃ a ∈ db.attachments, a.vaultId = plan.vaultId ∧ a.id = m.entityId ∧ a.envelopeVersion = m.expectedVersion

theorem mem_memberTuples {db : Db} {t : String × String × VaultRole} :
    t ∈ memberTuples db plan ↔ ∃ k ∈ db.vaultKeys, k.vaultId = plan.vaultId ∧ some k.userId ≠ plan.excludedUserId ∧
      ∃ u, db.users.get? k.userId = some u ∧ t = (k.userId, u.publicKey, k.role) := by
  simp only [memberTuples, remainingMembers, List.mem_map, List.mem_filterMap, Table.mem_select, Bool.and_eq_true,
    decide_eq_true_eq, Option.map_eq_some_iff, Prod.exists]
  constructor
  · rintro ⟨k, u, ⟨k', ⟨hk, hv, hx⟩, u', hu, he⟩, rfl⟩
    cases he
    exact ⟨k, hk, hv, hx, u, hu, rfl⟩
  · rintro ⟨k, hk, hv, hx, u, hu, rfl⟩
    exact ⟨k, u, ⟨k, ⟨hk, hv, hx⟩, u, hu, rfl⟩, rfl⟩

theorem mem_manifestMembers {id publicKey : String} {role : VaultRole} :
    (id, publicKey, role) ∈ plan.manifestMembers ↔
      ∃ m ∈ plan.manifest, m.entityId = id ∧ ∃ userId, m.payload = .member userId publicKey role := by
  simp only [RotationPlan.manifestMembers, List.mem_filterMap, Table.mem_rows]
  refine exists_congr fun m => and_congr_right fun _ => ?_
  cases hp : m.payload <;> simp

theorem memberStale_eq_false {db : Db} :
    plan.memberStale db = false ↔ ∀ t, t ∈ plan.manifestMembers ↔ t ∈ memberTuples db plan := by
  unfold RotationPlan.memberStale
  rw [Bool.or_eq_false_iff, List.any_eq_false, List.any_eq_false]
  simp only [decide_eq_true_eq, not_not]
  exact ⟨fun h t => ⟨h.1 t, h.2 t⟩, fun h => ⟨fun t => (h t).1, fun t => (h t).2⟩⟩

theorem checkPlan_ok {db : Db} (h : checkPlan db plan vault = .ok ⟨⟩) : Covered db plan vault := by
  unfold checkPlan at h
  split at h; · cases h
  next hver =>
  split at h; · cases h
  next hcomplete =>
  split at h; · cases h
  next hmember =>
  split at h; · cases h
  next hitem =>
  split at h; · cases h
  next hatt =>
  have hcomplete : plan.isComplete = true := not_not.mp hcomplete
  have hmember := memberStale_eq_false.mp (by simpa using hmember)
  obtain ⟨hitemM, hitemR⟩ := versionsStale_eq_false.mp (by simpa using hitem)
  obtain ⟨hattM, hattR⟩ := versionsStale_eq_false.mp (by simpa using hatt)
  -- A manifest record that is found has a staged output.
  have hstaged : ∀ {key : ManifestKind × String} {m : ManifestRecord}, plan.manifest.get? key = some m →
      ∃ s, plan.stagedFor key.1 key.2 = some s := by
    intro key m hm
    obtain ⟨hmem, rfl⟩ := Table.get?_eq_some.mp hm
    exact stagedFor_of_complete hcomplete hmem
  refine ⟨not_not.mp hver, ?_, ?_, ?_, ?_, ?_, ?_⟩
  · intro k hk hv hx hu
    obtain ⟨u, hu⟩ := Option.isSome_iff_exists.mp hu
    have ht := (hmember _).mpr (mem_memberTuples.mpr ⟨k, hk, hv, hx, u, hu, rfl⟩)
    obtain ⟨m, hm, hid, _, hp⟩ := mem_manifestMembers.mp ht
    obtain ⟨s, hs⟩ := stagedFor_of_complete hcomplete hm
    have hkind : m.kind = .member := by unfold ManifestRecord.kind; rw [hp]
    rw [hkind, hid] at hs
    exact ⟨s, hs⟩
  · intro i hi hv
    have hr : (i.id, i.version) ∈ itemVersions db plan.vaultId := by
      simp only [itemVersions, List.mem_map, Table.mem_select, decide_eq_true_eq]
      exact ⟨i, ⟨hi, hv⟩, rfl⟩
    obtain ⟨m, hm, he⟩ := hitemR _ hr
    obtain ⟨s, hs⟩ := hstaged hm
    exact ⟨m, s, hm, he, hs⟩
  · intro a ha hv
    have hr : (a.id, a.envelopeVersion) ∈ attachmentVersions db plan.vaultId := by
      simp only [attachmentVersions, List.mem_map, Table.mem_select, decide_eq_true_eq]
      exact ⟨a, ⟨ha, hv⟩, rfl⟩
    obtain ⟨m, hm, he⟩ := hattR _ hr
    obtain ⟨s, hs⟩ := hstaged hm
    exact ⟨m, s, hm, he, hs⟩
  · intro m hm hkind
    cases hp : m.payload with
    | member userId publicKey role =>
      have ht := (hmember _).mp (mem_manifestMembers.mpr ⟨m, hm, rfl, userId, hp⟩)
      obtain ⟨k, hk, hv, hx, u, -, he⟩ := mem_memberTuples.mp ht
      exact ⟨k, hk, hv, hx, (congrArg Prod.fst he).symm⟩
    | item | attachment => unfold ManifestRecord.kind at hkind; rw [hp] at hkind; cases hkind
  · intro m hm hkind
    have hr := hitemM m hm hkind
    simp only [itemVersions, List.mem_map, Table.mem_select, decide_eq_true_eq, Prod.mk.injEq] at hr
    obtain ⟨i, ⟨hi, hv⟩, hid, hver⟩ := hr
    exact ⟨i, hi, hv, hid, hver⟩
  · intro m hm hkind
    have hr := hattM m hm hkind
    simp only [attachmentVersions, List.mem_map, Table.mem_select, decide_eq_true_eq, Prod.mk.injEq] at hr
    obtain ⟨a, ⟨ha, hv⟩, hid, hver⟩ := hr
    exact ⟨a, ha, hv, hid, hver⟩

/-- **A finalization, exactly.** The plan was active and the checks passed on what the
transaction sees; then come the writes of the plan and the events. -/
theorem finalizeLockedPlan_ok {r : RotationResult}
    (h : finalizeLockedPlan tx now planId userId rotationId = .ok (tx', r)) :
    ∃ plan vault tx₁, Locked tx planId userId plan vault ∧ Covered tx.snapshot plan vault ∧
      Applied plan (vault.keyVersion + 1) rotationId tx tx₁ ∧
      tx' = appendEvents tx₁ (rotationEvents tx₁.snapshot plan rotationId (vault.keyVersion + 1)) ∧
      r = ⟨planId, plan.vaultId, vault.keyVersion + 1, rotationId⟩ := by
  simp only [finalizeLockedPlan, Except.bind_ok_iff, Except.pure_ok_iff, Prod.mk.injEq, Prod.exists] at h
  obtain ⟨plan, vault, hlock, ⟨⟩, hcheck, tx₁, happly, rfl, rfl⟩ := h
  exact ⟨plan, vault, tx₁, lockPlanAndVault_ok hlock, checkPlan_ok hcheck, applyPlan_ok happly, rfl, rfl⟩

/-! ## Rotated, and left alone -/

/-- **A vault rotated by a plan.** Its key version has gone up by one. Every item, every
attachment and every key of the vault was in the manifest as it was, and now has what was
staged for it; the keys of the excluded user are gone; nothing else is in the vault, and
the manifest lists nothing else. -/
structure Rotated (p : RotationPlan) (db db' : Db) : Prop where
  vault : ∃ v, db.vaults.get? p.vaultId = some v ∧ v.keyVersion = p.expectedKeyVersion ∧
    db'.vaults.get? p.vaultId = some { v with keyVersion := v.keyVersion + 1 }
  items : ∀ i ∈ db.items, i.vaultId = p.vaultId → ∃ m s, p.manifest.get? (.item, i.id) = some m ∧
    m.expectedVersion = i.version ∧ p.stagedFor .item i.id = some s ∧ i.withOutput s ∈ db'.items
  itemsOnly : ∀ i' ∈ db'.items, i'.vaultId = p.vaultId → ∃ i ∈ db.items, i.vaultId = p.vaultId ∧ i.id = i'.id
  manifestItems : ∀ m ∈ p.manifest, m.kind = .item → ∃ i ∈ db.items, i.vaultId = p.vaultId ∧ i.id = m.entityId
  attachments : ∀ a ∈ db.attachments, a.vaultId = p.vaultId → ∃ m s, p.manifest.get? (.attachment, a.id) = some m ∧
    m.expectedVersion = a.envelopeVersion ∧ p.stagedFor .attachment a.id = some s ∧ a.withOutput s ∈ db'.attachments
  attachmentsOnly : ∀ a' ∈ db'.attachments, a'.vaultId = p.vaultId →
    ∃ a ∈ db.attachments, a.vaultId = p.vaultId ∧ a.id = a'.id
  manifestAttachments : ∀ m ∈ p.manifest, m.kind = .attachment →
    ∃ a ∈ db.attachments, a.vaultId = p.vaultId ∧ a.id = m.entityId
  keys : ∀ k ∈ db.vaultKeys, k.vaultId = p.vaultId → some k.userId ≠ p.excludedUserId →
    ∃ s, p.stagedFor .member k.userId = some s ∧ k.withOutput s ∈ db'.vaultKeys
  keysOnly : ∀ k' ∈ db'.vaultKeys, k'.vaultId = p.vaultId → some k'.userId ≠ p.excludedUserId ∧
    ∃ k ∈ db.vaultKeys, k.vaultId = p.vaultId ∧ k.id = k'.id
  manifestKeys : ∀ m ∈ p.manifest, m.kind = .member →
    ∃ k ∈ db.vaultKeys, k.vaultId = p.vaultId ∧ some k.userId ≠ p.excludedUserId ∧ k.userId = m.entityId

/-- A vault left alone: its row and what is filed under it are the same. -/
structure SameVault (vaultId : String) (db db' : Db) : Prop where
  vault : db'.vaults.get? vaultId = db.vaults.get? vaultId
  items : ∀ i : Item, i.vaultId = vaultId → (i ∈ db'.items ↔ i ∈ db.items)
  attachments : ∀ a : ItemAttachment, a.vaultId = vaultId → (a ∈ db'.attachments ↔ a ∈ db.attachments)
  keys : ∀ k : VaultKey, k.vaultId = vaultId → (k ∈ db'.vaultKeys ↔ k ∈ db.vaultKeys)

theorem SameVault.refl (vaultId : String) (db : Db) : SameVault vaultId db db :=
  ⟨rfl, fun _ _ => Iff.rfl, fun _ _ => Iff.rfl, fun _ _ => Iff.rfl⟩

theorem SameVault.symm {vaultId : String} {a b : Db} (h : SameVault vaultId a b) : SameVault vaultId b a :=
  ⟨h.vault.symm, fun i hi => (h.items i hi).symm, fun i hi => (h.attachments i hi).symm, fun k hk => (h.keys k hk).symm⟩

theorem SameVault.trans {vaultId : String} {a b c : Db} (hab : SameVault vaultId a b) (hbc : SameVault vaultId b c) :
    SameVault vaultId a c :=
  ⟨hbc.vault.trans hab.vault, fun i hi => (hbc.items i hi).trans (hab.items i hi),
    fun i hi => (hbc.attachments i hi).trans (hab.attachments i hi),
    fun k hk => (hbc.keys k hk).trans (hab.keys k hk)⟩

/-- A rotation is about the rows of its vault alone. -/
theorem Rotated.congr {p : RotationPlan} {a a' b b' : Db} (ha : SameVault p.vaultId a' a) (h : Rotated p a b)
    (hb : SameVault p.vaultId b b') : Rotated p a' b' := by
  obtain ⟨v, hv, hkv, hv'⟩ := h.vault
  refine ⟨⟨v, ha.vault ▸ hv, hkv, hb.vault ▸ hv'⟩, ?_, ?_, ?_, ?_, ?_, ?_, ?_, ?_, ?_⟩
  · intro i hi hiv
    obtain ⟨m, s, hm, hver, hs, hmem⟩ := h.items i ((ha.items i hiv).mpr hi) hiv
    exact ⟨m, s, hm, hver, hs, (hb.items (i.withOutput s) hiv).mpr hmem⟩
  · intro i' hi' hiv
    obtain ⟨i, hi, hv, hid⟩ := h.itemsOnly i' ((hb.items i' hiv).mp hi') hiv
    exact ⟨i, (ha.items i hv).mp hi, hv, hid⟩
  · intro m hm hk
    obtain ⟨i, hi, hv, hid⟩ := h.manifestItems m hm hk
    exact ⟨i, (ha.items i hv).mp hi, hv, hid⟩
  · intro i hi hiv
    obtain ⟨m, s, hm, hver, hs, hmem⟩ := h.attachments i ((ha.attachments i hiv).mpr hi) hiv
    exact ⟨m, s, hm, hver, hs, (hb.attachments (i.withOutput s) hiv).mpr hmem⟩
  · intro i' hi' hiv
    obtain ⟨i, hi, hv, hid⟩ := h.attachmentsOnly i' ((hb.attachments i' hiv).mp hi') hiv
    exact ⟨i, (ha.attachments i hv).mp hi, hv, hid⟩
  · intro m hm hk
    obtain ⟨i, hi, hv, hid⟩ := h.manifestAttachments m hm hk
    exact ⟨i, (ha.attachments i hv).mp hi, hv, hid⟩
  · intro k hk hkv hx
    obtain ⟨s, hs, hmem⟩ := h.keys k ((ha.keys k hkv).mpr hk) hkv hx
    exact ⟨s, hs, (hb.keys (k.withOutput s) hkv).mpr hmem⟩
  · intro k' hk' hkv
    obtain ⟨hx, k, hk, hv, hid⟩ := h.keysOnly k' ((hb.keys k' hkv).mp hk') hkv
    exact ⟨hx, k, (ha.keys k hv).mp hk, hv, hid⟩
  · intro m hm hkind
    obtain ⟨k, hk, hv, hx, hid⟩ := h.manifestKeys m hm hkind
    exact ⟨k, (ha.keys k hv).mp hk, hv, hx, hid⟩

/-- The transaction sees every row of the vault: none was added, moved in or changed since
its snapshot. -/
structure NoPhantom (tx : Versions Db) (vaultId : String) : Prop where
  items : ∀ i ∈ tx.current.items, i.vaultId = vaultId → i ∈ tx.snapshot.items
  attachments : ∀ a ∈ tx.current.attachments, a.vaultId = vaultId → a ∈ tx.snapshot.attachments
  keys : ∀ k ∈ tx.current.vaultKeys, k.vaultId = vaultId → k ∈ tx.snapshot.vaultKeys

theorem NoPhantom.still (db : Db) (vaultId : String) : NoPhantom (.still db) vaultId :=
  ⟨fun _ h _ => h, fun _ h _ => h, fun _ h _ => h⟩

theorem NoPhantom.congr {tx tx' : Versions Db} {vaultId : String} (h : NoPhantom tx vaultId)
    (hs : SameVault vaultId tx.snapshot tx'.snapshot) (hc : SameVault vaultId tx.current tx'.current) :
    NoPhantom tx' vaultId :=
  ⟨fun i hi hv => (hs.items i hv).mpr (h.items i ((hc.items i hv).mp hi) hv),
    fun a ha hv => (hs.attachments a hv).mpr (h.attachments a ((hc.attachments a hv).mp ha) hv),
    fun k hk hv => (hs.keys k hv).mpr (h.keys k ((hc.keys k hv).mp hk) hv)⟩

/-! ## The rows after a plan -/

section Rows

variable {p : RotationPlan}

theorem mem_itemsAfter {seen t : Table Item.id} {x : Item} :
    x ∈ p.itemsAfter seen t ↔ ∃ i ∈ t, (if p.reencrypts i = true ∧ i ∈ seen then i.reencrypt p else i) = x := by
  simp only [RotationPlan.itemsAfter, Table.mem_updateWhere, Bool.and_eq_true, decide_eq_true_eq]

theorem mem_attachmentsAfter {seen t : Table ItemAttachment.id} {x : ItemAttachment} :
    x ∈ p.attachmentsAfter seen t ↔
      ∃ a ∈ t, (if p.rewrapsAttachment a = true ∧ a ∈ seen then a.rewrap p else a) = x := by
  simp only [RotationPlan.attachmentsAfter, Table.mem_updateWhere, Bool.and_eq_true, decide_eq_true_eq]

theorem mem_keysAfter {seen t : Table VaultKey.id} {x : VaultKey} :
    x ∈ p.keysAfter seen t ↔ ∃ k ∈ t, ¬ (p.excludes k = true ∧ k ∈ seen) ∧
      (if p.rewrapsKey k = true ∧ k ∈ seen then k.rewrap p else k) = x := by
  simp only [RotationPlan.keysAfter, Table.mem_updateWhere, Table.mem_deleteWhere, Bool.and_eq_true,
    decide_eq_true_eq, Bool.and_eq_false_iff, decide_eq_false_iff_not]
  refine exists_congr fun k => ?_
  by_cases hs : k ∈ seen <;> by_cases hx : p.excludes k = true <;> simp [hs, hx]

theorem Item.reencrypt_eq {i : Item} {s : StagedRecord} (h : p.stagedFor .item i.id = some s) :
    i.reencrypt p = i.withOutput s := by
  unfold Item.reencrypt; rw [h]; rfl

theorem ItemAttachment.rewrap_eq {a : ItemAttachment} {s : StagedRecord} (h : p.stagedFor .attachment a.id = some s) :
    a.rewrap p = a.withOutput s := by
  unfold ItemAttachment.rewrap; rw [h]; rfl

theorem VaultKey.rewrap_eq {k : VaultKey} {s : StagedRecord} (h : p.stagedFor .member k.userId = some s) :
    k.rewrap p = k.withOutput s := by
  unfold VaultKey.rewrap; rw [h]; rfl

theorem Item.reencrypt_vaultId (i : Item) : (i.reencrypt p).vaultId = i.vaultId := by
  unfold Item.reencrypt; cases p.stagedFor .item i.id <;> rfl

theorem ItemAttachment.rewrap_vaultId (a : ItemAttachment) : (a.rewrap p).vaultId = a.vaultId := by
  unfold ItemAttachment.rewrap; cases p.stagedFor .attachment a.id <;> rfl

theorem VaultKey.rewrap_vaultId (k : VaultKey) : (k.rewrap p).vaultId = k.vaultId ∧ (k.rewrap p).userId = k.userId := by
  unfold VaultKey.rewrap; cases p.stagedFor .member k.userId <;> exact ⟨rfl, rfl⟩

theorem reencrypts_vault {i : Item} (h : p.reencrypts i = true) : i.vaultId = p.vaultId := by
  unfold RotationPlan.reencrypts at h; simp only [Bool.and_eq_true, decide_eq_true_eq] at h; exact h.1

theorem rewrapsAttachment_vault {a : ItemAttachment} (h : p.rewrapsAttachment a = true) : a.vaultId = p.vaultId := by
  unfold RotationPlan.rewrapsAttachment at h; simp only [Bool.and_eq_true, decide_eq_true_eq] at h; exact h.1

theorem rewrapsKey_vault {k : VaultKey} (h : p.rewrapsKey k = true) : k.vaultId = p.vaultId := by
  unfold RotationPlan.rewrapsKey at h; simp only [Bool.and_eq_true, decide_eq_true_eq] at h; exact h.1

theorem excludes_vault {k : VaultKey} (h : p.excludes k = true) : k.vaultId = p.vaultId := by
  unfold RotationPlan.excludes at h; simp only [Bool.and_eq_true, decide_eq_true_eq] at h; exact h.1

/-- A plan leaves every other vault alone. -/
theorem sameVault_after {vaultId : String} (hv : vaultId ≠ p.vaultId) (keyVersion : Nat)
    (rotations : Table RotationRecord.id) (seen db : Db) : SameVault vaultId db (p.after keyVersion rotations seen db) := by
  refine ⟨?_, fun i hi => ?_, fun a ha => ?_, fun k hk => ?_⟩
  · show (p.vaultsAfter keyVersion seen.vaults db.vaults).get? vaultId = _
    rw [RotationPlan.vaultsAfter, Table.get?_updateWhere]
    cases h : db.vaults.get? vaultId with
    | none => rfl
    | some v =>
      have : v.id ≠ p.vaultId := (Table.key_of_get? h).symm ▸ hv
      simp [this]
  · show i ∈ p.itemsAfter seen.items db.items ↔ _
    unfold RotationPlan.itemsAfter
    refine Table.updateWhere_frame (fun i : Item => i.vaultId = p.vaultId) (fun r hr => ?_) (fun r hr => ?_) (hi ▸ hv)
    · exact reencrypts_vault (Bool.and_eq_true .. ▸ hr).1
    · rw [Item.reencrypt_vaultId]; exact hr
  · show a ∈ p.attachmentsAfter seen.attachments db.attachments ↔ _
    unfold RotationPlan.attachmentsAfter
    refine Table.updateWhere_frame (fun a : ItemAttachment => a.vaultId = p.vaultId) (fun r hr => ?_) (fun r hr => ?_)
      (ha ▸ hv)
    · exact rewrapsAttachment_vault (Bool.and_eq_true .. ▸ hr).1
    · rw [ItemAttachment.rewrap_vaultId]; exact hr
  · have hk : ¬ k.vaultId = p.vaultId := hk ▸ hv
    show k ∈ p.keysAfter seen.vaultKeys db.vaultKeys ↔ _
    unfold RotationPlan.keysAfter
    rw [Table.updateWhere_frame (fun k : VaultKey => k.vaultId = p.vaultId) (fun r hr => ?_) (fun r hr => ?_) hk,
      Table.deleteWhere_frame (fun k : VaultKey => k.vaultId = p.vaultId) (fun r hr => ?_) hk]
    · exact excludes_vault (Bool.and_eq_true .. ▸ hr).1
    · exact rewrapsKey_vault (Bool.and_eq_true .. ▸ hr).1
    · rw [(VaultKey.rewrap_vaultId r).1]; exact hr

end Rows

theorem appendEvents_snapshot (tx : Versions Db) (es : List SyncEvent) :
    (appendEvents tx es).snapshot = { tx.snapshot with
      events := tx.snapshot.events ++ numbered tx.snapshot.nextSeq es, nextSeq := tx.snapshot.nextSeq + es.length } :=
  foldl_appendEvent es tx.snapshot

theorem appendEvents_current (tx : Versions Db) (es : List SyncEvent) :
    (appendEvents tx es).current = { tx.current with
      events := tx.current.events ++ numbered tx.current.nextSeq es, nextSeq := tx.current.nextSeq + es.length } :=
  foldl_appendEvent es tx.current

theorem sameVault_appendEvents (vaultId : String) (tx : Versions Db) (es : List SyncEvent) :
    SameVault vaultId tx.snapshot (appendEvents tx es).snapshot ∧
      SameVault vaultId tx.current (appendEvents tx es).current := by
  rw [appendEvents_snapshot, appendEvents_current]
  exact ⟨⟨rfl, fun _ _ => Iff.rfl, fun _ _ => Iff.rfl, fun _ _ => Iff.rfl⟩,
    ⟨rfl, fun _ _ => Iff.rfl, fun _ _ => Iff.rfl, fun _ _ => Iff.rfl⟩⟩

/-- **A rotation is complete** when the transaction has seen every row of the vault. -/
theorem rotated_of_noPhantom {tx₁ : Versions Db} {userId planId : String}
    (hlock : Locked tx planId userId plan vault) (hcov : Covered tx.snapshot plan vault)
    (happ : Applied plan (vault.keyVersion + 1) rotationId tx tx₁) (husers : tx.snapshot.KeysHaveUsers)
    (hnp : NoPhantom tx plan.vaultId) : Rotated plan tx.current tx₁.current := by
  obtain ⟨s, c, -, -, rfl⟩ := happ.result
  have hid : vault.id = plan.vaultId := Table.key_of_get? hlock.foundVault
  have hvault : tx.current.vaults.get? plan.vaultId = some vault := hid ▸ Table.get?_key hlock.vaultCurrent
  refine ⟨⟨vault, hvault, hcov.keyVersion, ?_⟩, fun i hi hv => ?_, fun i' hi' hv => ?_, fun m hm hk => ?_,
    fun a ha hv => ?_, fun a' ha' hv => ?_, fun m hm hk => ?_, fun k hk hv hx => ?_, fun k' hk' hv => ?_,
    fun m hm hk => ?_⟩
  · show (plan.vaultsAfter _ _ tx.current.vaults).get? plan.vaultId = _
    rw [RotationPlan.vaultsAfter, Table.get?_updateWhere, hvault, Option.map_some]
    simp [hid, Table.mem_of_get? hlock.foundVault]
  · obtain ⟨m, s, hm, hver, hs⟩ := hcov.items i (hnp.items i hi hv) hv
    refine ⟨m, s, hm, hver, hs, mem_itemsAfter.mpr ⟨i, hi, ?_⟩⟩
    rw [if_pos ⟨by simp [RotationPlan.reencrypts, hv, hs], hnp.items i hi hv⟩, Item.reencrypt_eq hs]
  · obtain ⟨i, hi, he⟩ := mem_itemsAfter.mp hi'
    refine ⟨i, hi, ?_, ?_⟩ <;> subst he <;> split at hv <;> rename_i h
    · rwa [Item.reencrypt_vaultId] at hv
    · exact hv
    · rw [if_pos h, Item.reencrypt_id]
    · rw [if_neg h]
  · obtain ⟨i, hi, hv, hid, hver⟩ := hcov.manifestItems m hm hk
    obtain ⟨_, s, -, -, hs⟩ := hcov.items i hi hv
    exact ⟨i, happ.items i hi (by simp [RotationPlan.reencrypts, hv, hs]), hv, hid⟩
  · obtain ⟨m, s, hm, hver, hs⟩ := hcov.attachments a (hnp.attachments a ha hv) hv
    refine ⟨m, s, hm, hver, hs, mem_attachmentsAfter.mpr ⟨a, ha, ?_⟩⟩
    rw [if_pos ⟨by simp [RotationPlan.rewrapsAttachment, hv, hs], hnp.attachments a ha hv⟩,
      ItemAttachment.rewrap_eq hs]
  · obtain ⟨a, ha, he⟩ := mem_attachmentsAfter.mp ha'
    refine ⟨a, ha, ?_, ?_⟩ <;> subst he <;> split at hv <;> rename_i h
    · rwa [ItemAttachment.rewrap_vaultId] at hv
    · exact hv
    · rw [if_pos h, ItemAttachment.rewrap_id]
    · rw [if_neg h]
  · obtain ⟨a, ha, hv, hid, hver⟩ := hcov.manifestAttachments m hm hk
    obtain ⟨_, s, -, -, hs⟩ := hcov.attachments a ha hv
    exact ⟨a, happ.attachments a ha (by simp [RotationPlan.rewrapsAttachment, hv, hs]), hv, hid⟩
  · have hseen := hnp.keys k hk hv
    obtain ⟨s, hs⟩ := hcov.keys k hseen hv hx (husers k hseen)
    refine ⟨s, hs, mem_keysAfter.mpr ⟨k, hk, ?_, ?_⟩⟩
    · simp [RotationPlan.excludes, hx]
    · rw [if_pos ⟨by simp [RotationPlan.rewrapsKey, hv, hs], hseen⟩, VaultKey.rewrap_eq hs]
  · obtain ⟨k, hk, hx, he⟩ := mem_keysAfter.mp hk'
    have hsame : k'.vaultId = k.vaultId ∧ k'.userId = k.userId ∧ k'.id = k.id := by
      subst he; split
      · exact ⟨(VaultKey.rewrap_vaultId k).1, (VaultKey.rewrap_vaultId k).2, VaultKey.rewrap_id k⟩
      · exact ⟨rfl, rfl, rfl⟩
    have hkv : k.vaultId = plan.vaultId := hsame.1 ▸ hv
    refine ⟨fun hex => hx ⟨?_, hnp.keys k hk hkv⟩, k, hk, hkv, hsame.2.2.symm⟩
    simp [RotationPlan.excludes, hkv, ← hsame.2.1, hex]
  · obtain ⟨k, hk', hv, hx, hid⟩ := hcov.manifestKeys m hm hk
    obtain ⟨s, hs⟩ := hcov.keys k hk' hv hx (husers k hk')
    exact ⟨k, happ.keys k hk' (.inr (by simp [RotationPlan.rewrapsKey, hv, hs])), hv, hx, hid⟩

/-- **A vault a plan has written**, whatever the transaction has seen of it: the key version
has gone up by one, and every item and attachment has what was staged for it, unless the
transaction has not seen it. -/
structure Rewritten (p : RotationPlan) (tx : Versions Db) (db' : Db) : Prop where
  vault : ∃ v, tx.current.vaults.get? p.vaultId = some v ∧ v.keyVersion = p.expectedKeyVersion ∧
    db'.vaults.get? p.vaultId = some { v with keyVersion := v.keyVersion + 1 }
  items : ∀ i' ∈ db'.items, i'.vaultId = p.vaultId →
    (∃ (i : Item) (s : _), p.stagedFor .item i.id = some s ∧ i' = i.withOutput s) ∨ i' ∈ tx.current.items ∧ i' ∉ tx.snapshot.items
  attachments : ∀ a' ∈ db'.attachments, a'.vaultId = p.vaultId →
    (∃ (a : ItemAttachment) (s : _), p.stagedFor .attachment a.id = some s ∧ a' = a.withOutput s) ∨
      a' ∈ tx.current.attachments ∧ a' ∉ tx.snapshot.attachments

theorem Rewritten.congr {p : RotationPlan} {tx tx' : Versions Db} {b b' : Db} (h : Rewritten p tx b)
    (hs : SameVault p.vaultId tx.snapshot tx'.snapshot) (hc : SameVault p.vaultId tx.current tx'.current)
    (hb : SameVault p.vaultId b b') : Rewritten p tx' b' := by
  obtain ⟨v, hv, hkv, hv'⟩ := h.vault
  refine ⟨⟨v, hc.vault.trans hv, hkv, hb.vault.trans hv'⟩, fun i hi hiv => ?_, fun a ha hav => ?_⟩
  · rcases h.items i ((hb.items i hiv).mp hi) hiv with hw | ⟨hcur, hsnap⟩
    · exact .inl hw
    · exact .inr ⟨(hc.items i hiv).mpr hcur, fun hin => hsnap ((hs.items i hiv).mp hin)⟩
  · rcases h.attachments a ((hb.attachments a hav).mp ha) hav with hw | ⟨hcur, hsnap⟩
    · exact .inl hw
    · exact .inr ⟨(hc.attachments a hav).mpr hcur, fun hin => hsnap ((hs.attachments a hav).mp hin)⟩

theorem rewritten_of_applied {tx₁ : Versions Db} {userId planId : String}
    (hlock : Locked tx planId userId plan vault) (hcov : Covered tx.snapshot plan vault)
    (happ : Applied plan (vault.keyVersion + 1) rotationId tx tx₁) : Rewritten plan tx tx₁.current := by
  obtain ⟨s, c, -, -, rfl⟩ := happ.result
  have hid : vault.id = plan.vaultId := Table.key_of_get? hlock.foundVault
  have hvault : tx.current.vaults.get? plan.vaultId = some vault := hid ▸ Table.get?_key hlock.vaultCurrent
  refine ⟨⟨vault, hvault, hcov.keyVersion, ?_⟩, fun i' hi' hv => ?_, fun a' ha' hv => ?_⟩
  · show (plan.vaultsAfter _ _ tx.current.vaults).get? plan.vaultId = _
    rw [RotationPlan.vaultsAfter, Table.get?_updateWhere, hvault, Option.map_some]
    simp [hid, Table.mem_of_get? hlock.foundVault]
  · obtain ⟨i, hi, he⟩ := mem_itemsAfter.mp hi'
    by_cases hw : plan.reencrypts i = true ∧ i ∈ tx.snapshot.items
    · rw [if_pos hw] at he
      obtain ⟨m, s, -, -, hs⟩ := hcov.items i hw.2 (reencrypts_vault hw.1)
      exact .inl ⟨i, s, hs, by rw [← he, Item.reencrypt_eq hs]⟩
    · rw [if_neg hw] at he
      subst he
      refine .inr ⟨hi, fun hseen => ?_⟩
      obtain ⟨m, s, -, -, hs⟩ := hcov.items i hseen hv
      exact hw ⟨by simp [RotationPlan.reencrypts, hv, hs], hseen⟩
  · obtain ⟨a, ha, he⟩ := mem_attachmentsAfter.mp ha'
    by_cases hw : plan.rewrapsAttachment a = true ∧ a ∈ tx.snapshot.attachments
    · rw [if_pos hw] at he
      obtain ⟨m, s, -, -, hs⟩ := hcov.attachments a hw.2 (rewrapsAttachment_vault hw.1)
      exact .inl ⟨a, s, hs, by rw [← he, ItemAttachment.rewrap_eq hs]⟩
    · rw [if_neg hw] at he
      subst he
      refine .inr ⟨ha, fun hseen => ?_⟩
      obtain ⟨m, s, -, -, hs⟩ := hcov.attachments a hseen hv
      exact hw ⟨by simp [RotationPlan.rewrapsAttachment, hv, hs], hseen⟩

/-! ## A finalization, as its callers use it -/

/-- What a finalization of `plan` in the transaction has done: the checks it has passed,
the vault it has rotated, and what it has left alone. -/
structure Finalized (planId userId : String) (plan : RotationPlan) (vault : Vault) (tx tx' : Versions Db) : Prop where
  locked : Locked tx planId userId plan vault
  covered : Covered tx.snapshot plan vault
  rotated : tx.snapshot.KeysHaveUsers → NoPhantom tx plan.vaultId → Rotated plan tx.current tx'.current
  rewritten : Rewritten plan tx tx'.current
  vaults : tx'.current.vaults = plan.vaultsAfter (vault.keyVersion + 1) tx.snapshot.vaults tx.current.vaults
  others : ∀ v, v ≠ plan.vaultId → SameVault v tx.snapshot tx'.snapshot ∧ SameVault v tx.current tx'.current
  plansSeen : tx'.snapshot.plans = plan.plansAfter tx.snapshot.plans tx.snapshot.plans
  plans : tx'.current.plans = plan.plansAfter tx.snapshot.plans tx.current.plans
  keysSeen : tx'.snapshot.vaultKeys = plan.keysAfter tx.snapshot.vaultKeys tx.snapshot.vaultKeys
  keys : tx'.current.vaultKeys = plan.keysAfter tx.snapshot.vaultKeys tx.current.vaultKeys
  items : tx'.current.items = plan.itemsAfter tx.snapshot.items tx.current.items
  attachments : tx'.current.attachments = plan.attachmentsAfter tx.snapshot.attachments tx.current.attachments
  users : tx'.snapshot.users = tx.snapshot.users ∧ tx'.current.users = tx.current.users
  teams : tx'.snapshot.teams = tx.snapshot.teams ∧ tx'.current.teams = tx.current.teams
  sessions : tx'.snapshot.sessions = tx.snapshot.sessions ∧ tx'.current.sessions = tx.current.sessions

theorem finalizeLockedPlan_finalized {r : RotationResult}
    (h : finalizeLockedPlan tx now planId userId rotationId = .ok (tx', r)) :
    ∃ plan vault, Finalized planId userId plan vault tx tx' := by
  obtain ⟨plan, vault, tx₁, hlock, hcov, happ, rfl, -⟩ := finalizeLockedPlan_ok h
  have hrot := rotated_of_noPhantom hlock hcov happ
  have hrew := rewritten_of_applied hlock hcov happ
  obtain ⟨s, c, -, -, rfl⟩ := happ.result
  have hevents := fun v => sameVault_appendEvents v
    (⟨plan.after (vault.keyVersion + 1) s tx.snapshot tx.snapshot,
      plan.after (vault.keyVersion + 1) c tx.snapshot tx.current⟩ : Versions Db)
  refine ⟨plan, vault, hlock, hcov, fun hu hnp => ?_, ?_, ?_, fun v hv => ⟨?_, ?_⟩, ?_, ?_, ?_, ?_, ?_, ?_, ?_, ?_, ?_⟩
  · exact (hrot hu hnp).congr (.refl ..) (hevents plan.vaultId _).2
  · exact hrew.congr (.refl ..) (.refl ..) (hevents plan.vaultId _).2
  · rw [appendEvents_current]; rfl
  · exact (sameVault_after hv ..).trans (hevents v _).1
  · exact (sameVault_after hv ..).trans (hevents v _).2
  all_goals first
    | rw [appendEvents_current]; rfl
    | rw [appendEvents_snapshot]; rfl
    | exact ⟨by rw [appendEvents_snapshot]; rfl, by rw [appendEvents_current]; rfl⟩

theorem Finalized.keysHaveUsers (h : Finalized planId userId plan vault tx tx') (hu : tx.snapshot.KeysHaveUsers) :
    tx'.snapshot.KeysHaveUsers := by
  intro k hk
  rw [h.keysSeen] at hk
  obtain ⟨k₀, hk₀, -, rfl⟩ := mem_keysAfter.mp hk
  have huser := hu k₀ hk₀
  rw [h.users.1]
  split
  · rwa [(VaultKey.rewrap_vaultId k₀).2]
  · exact huser

/-- The plan is completed; every other plan keeps its row. -/
theorem get?_plansAfter {seen t : Table RotationPlan.id} {id : String} :
    (plan.plansAfter seen t).get? id =
      (t.get? id).map fun r => if r.id = plan.id ∧ r ∈ seen then { r with state := .completed } else r := by
  simp only [RotationPlan.plansAfter, Table.get?_updateWhere, Bool.and_eq_true, decide_eq_true_eq]

theorem get?_plansAfter_of_ne {seen t : Table RotationPlan.id} {id : String} (h : id ≠ plan.id) :
    (plan.plansAfter seen t).get? id = t.get? id := by
  rw [get?_plansAfter]
  cases hr : t.get? id with
  | none => rfl
  | some r =>
    have : r.id ≠ plan.id := (Table.key_of_get? hr).symm ▸ h
    simp [this]

/-- A finalization keeps the foreign keys. -/
theorem Finalized.referential (h : Finalized planId userId plan vault tx tx') (hr : tx.current.Referential) :
    tx'.current.Referential := by
  have hhas : ∀ v, tx'.current.hasVault v = tx.current.hasVault v := by
    intro v
    show (tx'.current.vaults.get? v).isSome = _
    rw [h.vaults, RotationPlan.vaultsAfter, Table.get?_updateWhere, Option.isSome_map]; rfl
  refine ⟨fun i' hi' => ?_, fun a' ha' => ?_, fun k' hk' => ?_, fun k' hk' => ?_⟩
  · rw [h.items] at hi'
    obtain ⟨i, hi, rfl⟩ := mem_itemsAfter.mp hi'
    rw [hhas, apply_ite Item.vaultId, Item.reencrypt_vaultId, ite_self]
    exact hr.items i hi
  · rw [h.attachments] at ha'
    obtain ⟨a, ha, rfl⟩ := mem_attachmentsAfter.mp ha'
    rw [hhas, apply_ite ItemAttachment.vaultId, ItemAttachment.rewrap_vaultId, ite_self]
    exact hr.attachments a ha
  · rw [h.keys] at hk'
    obtain ⟨k, hk, -, rfl⟩ := mem_keysAfter.mp hk'
    rw [hhas, apply_ite VaultKey.vaultId, (VaultKey.rewrap_vaultId k).1, ite_self]
    exact hr.keys k hk
  · rw [h.keys] at hk'
    obtain ⟨k, hk, -, rfl⟩ := mem_keysAfter.mp hk'
    rw [h.users.2, apply_ite VaultKey.userId, (VaultKey.rewrap_vaultId k).2, ite_self]
    exact hr.users k hk

/-- The plan of a finalization is there as it was seen, and is completed. -/
theorem Finalized.completed (h : Finalized planId userId plan vault tx tx') :
    tx.current.plans.get? plan.id = some plan ∧
      tx'.current.plans.get? plan.id = some { plan with state := .completed } := by
  have hcur : tx.current.plans.get? plan.id = some plan := Table.get?_key h.locked.planCurrent
  refine ⟨hcur, ?_⟩
  rw [h.plans, get?_plansAfter, hcur, Option.map_some, if_pos ⟨rfl, Table.mem_of_get? h.locked.foundPlan⟩]

end Bittery
