/-
The version of an item over a run of the server.

A request on an item names the version that its client has seen; the statement that writes the row asks for that version
and counts it up, as a rotation does, and nothing counts it down. So of the requests that name one version a single one is
accepted, however old the rows are that they have read. The item has to stay: one that is created under the id of a
deleted one begins at 1.
-/
import Bittery.Server.ItemRows
import Bittery.Server.Rotation.PlanSafety

namespace Bittery

open Lib

variable {db db' seen acl : Db} {userId : String}

/-- No item that is in both databases has an earlier version in the second. -/
def Db.VersionsGrow (db db' : Db) : Prop :=
  ∀ id i i', db.items.get? id = some i → db'.items.get? id = some i' → i.version ≤ i'.version

/-- The rows are those there were, with these versions or later ones. -/
theorem versionsGrow_of_rows (h : ∀ i' ∈ db'.items, ∃ i ∈ db.items, i.id = i'.id ∧ i.version ≤ i'.version) :
    db.VersionsGrow db' := by
  intro id i i' hi hi'
  obtain ⟨j, hj, hid, hle⟩ := h i' (Table.mem_of_get? hi')
  obtain rfl := Table.eq_of_key_eq hj (Table.mem_of_get? hi) (hid.trans ((Table.key_of_get? hi').trans (Table.key_of_get? hi).symm))
  exact hle

/-- The rows are those there were, and others. -/
theorem versionsGrow_of_kept (h : ∀ i ∈ db.items, i ∈ db'.items) : db.VersionsGrow db' := by
  intro id i i' hi hi'
  obtain rfl := Table.eq_of_key_eq (h i (Table.mem_of_get? hi)) (Table.mem_of_get? hi')
    ((Table.key_of_get? hi).trans (Table.key_of_get? hi').symm)
  exact Nat.le_refl _

/-! ## One transaction -/

/-- What an accepted request on an item has found, and the versions that it has left. -/
theorem ItemRequest.counts {r : ItemRequest} {m : ItemMutation} (hm : r.mutation userId = some m)
    (h : r.run seen acl db userId = .ok db') :
    ∃ existing row, m.Accepted seen acl db userId existing row ∧ ∀ id i', db'.items.get? id = some i' →
      ∃ i, db.items.get? id = some i ∧ i'.version = if id = m.itemId then i.version + 1 else i.version := by
  obtain ⟨version, h⟩ := ItemRequest.run_mutation hm h
  obtain ⟨existing, row, hacc, -, rfl⟩ := ItemMutation.run_ok h
  have hrow : row.id = m.itemId := Table.key_of_get? hacc.found
  refine ⟨existing, row, hacc, fun id i' hi' => ?_⟩
  have hi' : (writeRow db row (m.write row)).items.get? id = some i' := hi'
  cases hwrite : m.write row with
  | none =>
    rw [hwrite, get?_writeRow_none, hrow] at hi'
    split at hi'
    · cases hi'
    · next hne => exact ⟨i', hi', (if_neg hne).symm⟩
  | some row' =>
    obtain ⟨hid, hversion⟩ := ItemRequest.mutation_write hm hwrite
    rw [hwrite, get?_writeRow_some (hrow.symm ▸ hacc.found) hid, hrow] at hi'
    split at hi'
    · next heq =>
      obtain rfl := Option.some.inj hi'
      exact ⟨row, heq ▸ hacc.found, by rw [if_pos heq, hversion]⟩
    · next hne => exact ⟨i', hi', (if_neg hne).symm⟩

theorem ItemRequest.versionsGrow {r : ItemRequest} (h : r.run seen acl db userId = .ok db') : db.VersionsGrow db' := by
  have hmutation : ∀ m, r.mutation userId = some m → db.VersionsGrow db' := by
    intro m hm id i i' hi hi'
    obtain ⟨_, _, -, hcounts⟩ := ItemRequest.counts hm h
    obtain ⟨j, hj, hversion⟩ := hcounts id i' hi'
    obtain rfl := Option.some.inj (hi.symm.trans hj)
    split at hversion <;> omega
  cases r with
  | create input =>
    obtain ⟨-, -, items, hins, rfl⟩ := createVaultItem_ok h
    exact versionsGrow_of_kept fun i hi => (Table.mem_insert hins i).mpr (.inl hi)
  | bulkImport input =>
    obtain ⟨-, rfl | ⟨-, -, items, hrows, rfl⟩⟩ := bulkImportVaultItems_ok h
    · exact versionsGrow_of_kept fun _ hi => hi
    · refine versionsGrow_of_kept fun i hi => ?_
      show i ∈ items.rows
      rw [hrows]
      exact List.mem_append_left _ hi
  | update | favorite | delete | restore | move | permanentDelete => exact hmutation _ rfl

theorem FinalizedInTurn.versions {actorId : String} {ps : List RotationPlan} {es : List SyncEvent} {tx tx' : Versions Db}
    (h : FinalizedInTurn actorId ps es tx tx') :
    ∀ i' ∈ tx'.current.items, ∃ i ∈ tx.current.items, i.id = i'.id ∧ i.version ≤ i'.version := by
  induction h with
  | nil tx => exact fun i hi => ⟨i, hi, rfl, Nat.le_refl _⟩
  | cons hf _ _ _ _ _ ih =>
    intro i'' hi''
    obtain ⟨i', hi', hid', hle'⟩ := ih i'' hi''
    rw [hf.items] at hi'
    obtain ⟨i, hi, rfl⟩ := mem_itemsAfter.mp hi'
    refine ⟨i, hi, Eq.trans ?_ hid', Nat.le_trans ?_ hle'⟩
    · split
      · exact (Item.reencrypt_id i).symm
      · rfl
    · split
      · unfold Item.reencrypt
        cases RotationPlan.stagedFor _ .item i.id
        · exact Nat.le_refl _
        · exact Nat.le_succ _
      · exact Nat.le_refl _

/-- **No transaction counts a version down.** -/
theorem Transaction.versionsGrow {d : Deployment} {h : History} {t : Transaction} (hrun : t.run d h = some db') :
    h.now.VersionsGrow db' := by
  cases Transaction.itemEffect hrun with
  | kept hk => exact versionsGrow_of_rows fun i hi => ⟨i, hk.items i hi, rfl, Nat.le_refl _⟩
  | request _ hrun => exact ItemRequest.versionsGrow hrun
  | attached _ hrun =>
    obtain ⟨_, _, _, _, -, -, -, -, -, -, -, rfl⟩ := createVaultAttachment_ok hrun
    exact versionsGrow_of_kept fun _ hi => hi
  | finalizes _ hturn hsame => exact versionsGrow_of_rows fun i hi => hturn.versions i (hsame.items ▸ hi)

/-! ## Every run -/

/-- While the item stays, the versions that it has passed stay behind it. -/
theorem version_kept {d : Deployment} {h h' : History} {itemId : String} {ts : List Transaction} {n : Nat}
    (hrun : (server d).runUnder (fun h _ => (h.now.items.get? itemId).isSome = true) h ts = some h')
    (hn : ∀ i, h.now.items.get? itemId = some i → n < i.version) : ∀ i, h'.now.items.get? itemId = some i → n < i.version := by
  induction ts generalizing h with
  | nil => exact Option.some.inj hrun ▸ hn
  | cons t ts ih =>
    simp only [System.runUnder] at hrun
    split at hrun
    · next hthere =>
      obtain ⟨m, hm, hrest⟩ := Option.bind_eq_some_iff.mp hrun
      obtain ⟨db, hdb, rfl⟩ := Option.map_eq_some_iff.mp hm
      obtain ⟨i, hi⟩ := Option.isSome_iff_exists.mp hthere
      exact ih hrest fun j hj => Nat.lt_of_lt_of_le (hn i hi) (Transaction.versionsGrow hdb itemId i j hi hj)
    · cases hrun

/-- **A version of an item is replaced once.** Of two accepted requests on an item that stays, the
later one names the later version, whatever transactions come between them and however old the
rows are that they have read. -/
theorem version_replaced_once (d : Deployment) {h h₁ h₂ h₃ : History} {user₁ user₂ : String} {r₁ r₂ : ItemRequest}
    {m₁ m₂ : ItemMutation} {seen₁ acl₁ seen₂ acl₂ v₁ v₂ : Nat} {between : List Transaction}
    (hm₁ : r₁.mutation user₁ = some m₁) (hm₂ : r₂.mutation user₂ = some m₂) (hid : m₂.itemId = m₁.itemId)
    (hv₁ : m₁.expectedVersion = some v₁) (hv₂ : m₂.expectedVersion = some v₂)
    (hfirst : (server d).step h (.item user₁ r₁ seen₁ acl₁) = some h₁)
    (hbetween : (server d).runUnder (fun h _ => (h.now.items.get? m₁.itemId).isSome = true) h₁ between = some h₂)
    (hsecond : (server d).step h₂ (.item user₂ r₂ seen₂ acl₂) = some h₃) : v₁ < v₂ := by
  obtain ⟨db₁, hrun₁, rfl⟩ := Option.map_eq_some_iff.mp hfirst
  obtain ⟨db₃, hrun₃, rfl⟩ := Option.map_eq_some_iff.mp hsecond
  obtain ⟨_, -, _, -, hrun₁⟩ := History.ran₂ hrun₁
  obtain ⟨_, -, _, -, hrun₃⟩ := History.ran₂ hrun₃
  obtain ⟨_, row₁, hacc₁, hcounts⟩ := ItemRequest.counts hm₁ hrun₁
  obtain ⟨_, row₂, hacc₂, -⟩ := ItemRequest.counts hm₂ hrun₃
  have hversion₁ := hacc₁.version
  have hversion₂ := hacc₂.version
  rw [hv₁, Option.getD_some] at hversion₁
  rw [hv₂, Option.getD_some] at hversion₂
  rw [← hversion₂]
  refine version_kept hbetween (fun i hi => ?_) row₂ (hid ▸ hacc₂.found)
  obtain ⟨j, hj, hcount⟩ := hcounts _ i hi
  obtain rfl := Option.some.inj (hacc₁.found.symm.trans hj)
  rw [if_pos rfl] at hcount
  omega

/-- An update of version 1, and a favourite of version 2 whose checks have read the older row. -/
theorem version_replaced_once_twice : ∃ h h₁ h₂,
    (server selfHosted).step h (.item "ann" (.update ⟨"item", none, none, none, some 1, none⟩) 0 0) = some h₁ ∧
    (server selfHosted).step h₁ (.item "ann" (.favorite true ⟨"item", some 2, none⟩) 1 0) = some h₂ ∧ 1 < 2 := by
  have hrun : ((server selfHosted).run ⟨Db.empty, []⟩ (sharedVault ++
      [.item "ann" (.create ⟨"item", "v", .login, "data", "iv", "alg", none⟩) 0 0])).any (fun h =>
        ((server selfHosted).step h (.item "ann" (.update ⟨"item", none, none, none, some 1, none⟩) 0 0)).any fun h₁ =>
          ((server selfHosted).step h₁ (.item "ann" (.favorite true ⟨"item", some 2, none⟩) 1 0)).isSome) = true := by
    decide +kernel
  obtain ⟨h, -, hrun⟩ := (Option.any_eq_true ..).mp hrun
  obtain ⟨h₁, hfirst, hrun⟩ := (Option.any_eq_true ..).mp hrun
  obtain ⟨h₂, hsecond⟩ := Option.isSome_iff_exists.mp hrun
  exact ⟨h, h₁, h₂, hfirst, hsecond,
    @version_replaced_once selfHosted _ _ _ _ _ _ _ _ _ _ _ _ _ _ _ _ [] (by rfl) (by rfl) (by rfl) (by rfl) (by rfl) hfirst rfl hsecond⟩

end Bittery
