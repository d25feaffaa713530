/-
The promotion of a staged generation: for each id, a merge of the record that was active when
the staging began, the active one and the staged one.

The merge keeps an active record that was changed meanwhile, whatever the version of the staged
one. When that is said of both versions, and deleted ids and vaults are seen to, the promotion
keeps the newest.
-/
import Bittery.Client.ItemCacheWrites

namespace Bittery.ItemCache

open Lib

variable {Text : Type} (F : CacheFormat Text) {s t : RecordStore Text}

/-! ## The merge -/

/-- The vaults that were there when the staging began, and are not any more. -/
def deletedVaultIds (baseline previous : Records Text) : List String :=
  (baseline.rows.map StoredRecord.id).filter fun id => (previous.value id).isNone

section Merge

variable [DecidableEq Text]

/-- What a promotion makes of an id. -/
def mergeItem (deletedVaultIds : List String) (baseline active staged : Option Text) : Option Text :=
  let merged := match active with
    | none => if baseline.isSome then none else staged
    | some value => if keepsActive F baseline staged ⟨"", value⟩ then some value else staged
  merged.filter fun value => !(F.parseItem value).any (·.vaultId ∈ deletedVaultIds)

/-- What it makes of the records. -/
def mergedItems (deletedVaultIds : List String) (baseline active staged : Records Text) : Records Text :=
  let remaining := staged.deleteWhere fun r => (baseline.value r.id).isSome && (active.value r.id).isNone
  ((keepItems F baseline active.rows remaining).2).deleteWhere fun r => (F.parseItem r.value).any (·.vaultId ∈ deletedVaultIds)

/-! ### Id by id -/

omit [DecidableEq Text] in
theorem value_deleteWhere (records : Records Text) (p : StoredRecord Text → Bool) (id : String) :
    Records.value (records.deleteWhere p) id = ((records.get? id).filter fun r => !p r).map (·.value) := by
  unfold Records.value
  rw [Table.get?_deleteWhere]

theorem keepItems_eq (baseline staged : Records Text) (previous : List (StoredRecord Text))
    (hids : (previous.map StoredRecord.id).Nodup) :
    keepItems F baseline previous staged =
      (previous.filter fun r => keepsActive F (baseline.value r.id) (staged.value r.id) r,
        (previous.filter fun r => keepsActive F (baseline.value r.id) (staged.value r.id) r).foldl Table.put staged) := by
  -- What is kept of one id does not change what is staged for the others.
  have hall : ∀ (previous kept : List (StoredRecord Text)) (staged' : Records Text), (previous.map StoredRecord.id).Nodup →
      (∀ r ∈ previous, staged'.value r.id = staged.value r.id) →
      previous.foldl
        (fun held record =>
          if keepsActive F (baseline.value record.id) (Records.value held.2 record.id) record then
            (held.1 ++ [record], held.2.put record)
          else held)
        (kept, staged') =
      (kept ++ previous.filter fun r => keepsActive F (baseline.value r.id) (staged.value r.id) r,
        (previous.filter fun r => keepsActive F (baseline.value r.id) (staged.value r.id) r).foldl Table.put staged') := by
    intro previous
    induction previous with
    | nil => exact fun kept staged' _ _ => by simp
    | cons r previous ih =>
      intro kept staged' hids hstaged
      obtain ⟨hr, hids⟩ := List.nodup_cons.mp hids
      have hothers := fun x hx => hstaged x (List.mem_cons_of_mem r hx)
      rw [List.foldl_cons]
      dsimp only
      rw [hstaged r List.mem_cons_self]
      cases hkeeps : keepsActive F (baseline.value r.id) (staged.value r.id) r with
      | true =>
        rw [if_pos rfl, ih _ _ hids fun x hx => ?_]
        · simp only [List.filter_cons, hkeeps, if_true, List.append_assoc, List.cons_append, List.nil_append, List.foldl_cons]
        · rw [value_put, if_neg, hothers x hx]
          exact fun hid => hr (List.mem_map.mpr ⟨x, hx, hid⟩)
      | false =>
        rw [if_neg Bool.false_ne_true, ih _ _ hids hothers]
        simp only [List.filter_cons, hkeeps, Bool.false_eq_true, if_false]
  exact hall previous [] staged hids fun _ _ => rfl

theorem keepsActive_id (baseline staged : Option Text) (id id' : String) (value : Text) :
    keepsActive F baseline staged ⟨id, value⟩ = keepsActive F baseline staged ⟨id', value⟩ := rfl

/-- The kept records, put over the staged ones. -/
theorem value_keepItems (baseline active staged : Records Text) (id : String) :
    Records.value (keepItems F baseline active.rows staged).2 id =
      match active.value id with
      | none => staged.value id
      | some value =>
        if keepsActive F (baseline.value id) (staged.value id) ⟨"", value⟩ then some value else staged.value id := by
  have hrows : (active.rows.filter fun r => keepsActive F (baseline.value r.id) (staged.value r.id) r) =
      (active.deleteWhere fun r => !keepsActive F (baseline.value r.id) (staged.value r.id) r).rows := by
    simp [Table.deleteWhere]
  rw [keepItems_eq F baseline staged active.rows active.nodup, hrows, value_foldl_put, value_deleteWhere]
  unfold Records.value
  cases hactive : active.get? id with
  | none => rfl
  | some r =>
    obtain rfl : r.id = id := Table.key_of_get? hactive
    simp only [Option.map_some, Option.filter_some, Bool.not_not]
    rw [keepsActive_id F _ _ "" r.id]
    split <;> rfl

theorem mergedItems_value (deletedVaultIds : List String) (baseline active staged : Records Text) (id : String) :
    (mergedItems F deletedVaultIds baseline active staged).value id =
      mergeItem F deletedVaultIds (baseline.value id) (active.value id) (staged.value id) := by
  have hremaining : Records.value
      (staged.deleteWhere fun r => (baseline.value r.id).isSome && (active.value r.id).isNone) id =
      if (baseline.value id).isSome && (active.value id).isNone then none else staged.value id := by
    rw [value_deleteWhere]
    unfold Records.value
    cases hstaged : staged.get? id with
    | none => simp
    | some r =>
      obtain rfl : r.id = id := Table.key_of_get? hstaged
      simp only [Option.filter_some]
      cases ((baseline.get? r.id).map StoredRecord.value).isSome && ((active.get? r.id).map StoredRecord.value).isNone <;> rfl
  have hfilter : ∀ o : Option (StoredRecord Text),
      (o.filter fun r => !(F.parseItem r.value).any (·.vaultId ∈ deletedVaultIds)).map (·.value) =
        (o.map (·.value)).filter fun value => !(F.parseItem value).any (·.vaultId ∈ deletedVaultIds) := by
    intro o
    cases o with
    | none => rfl
    | some r =>
      simp only [Option.filter_some, Option.map_some]
      split <;> rfl
  unfold mergedItems mergeItem
  dsimp only
  rw [value_deleteWhere, hfilter]
  have hkept := value_keepItems F baseline active
    (staged.deleteWhere fun r => (baseline.value r.id).isSome && (active.value r.id).isNone) id
  rw [hremaining] at hkept
  change Option.filter _ (Records.value _ id) = _
  rw [hkept]
  cases active.value id with
  | none => simp
  | some value => simp

/-! ### What the merge is to be -/

/-- The record was added, or its version has gone up. -/
def Advanced (baseline : Option Text) (item : CachedEncryptedItem) : Prop :=
  baseline = none ∨ ∃ before, baseline.bind F.parseItem = some before ∧ before.version < item.version

/-- What the promotion is to make of an id: the newer of two records, nothing of what was deleted or is gone
from the server, and what was added or advanced meanwhile. -/
structure Merged (deleted : Prop) (baseline active staged result : Option Text) : Prop where
  newest : ∀ item stagedItem, active.bind F.parseItem = some item → staged.bind F.parseItem = some stagedItem →
    ∃ kept, result.bind F.parseItem = some kept ∧ kept.version = max item.version stagedItem.version
  deleted : deleted → active = none → result = none
  dropped : active.isSome = true → baseline = active → staged = none → result = none
  kept : ∀ item, active.bind F.parseItem = some item → Advanced F baseline item →
    ∃ kept, result.bind F.parseItem = some kept ∧ item.version ≤ kept.version

/-- When it does. -/
structure Mergeable (deletedVaultIds : List String) (deleted : Prop) (baseline active staged : Option Text) : Prop where
  /-- A record that was changed meanwhile is not older than the staged one. -/
  notOvertaken : ∀ item stagedItem, active.bind F.parseItem = some item → staged.bind F.parseItem = some stagedItem →
    baseline ≠ active → stagedItem.version ≤ item.version
  /-- A record that was added meanwhile and deleted again is not staged, or its vault is gone. -/
  notRestored : deleted → active = none → baseline = none → ∀ value ∈ staged,
    (F.parseItem value).any (·.vaultId ∈ deletedVaultIds) = true
  /-- The active record, where it is the newer one, is in no vault that was deleted meanwhile, … -/
  activeVault : ∀ item, active.bind F.parseItem = some item →
    ((staged.bind F.parseItem).isSome = true ∨ Advanced F baseline item) →
    (baseline ≠ active ∨ ∃ stagedItem, staged.bind F.parseItem = some stagedItem ∧ stagedItem.version < item.version) →
    item.vaultId ∉ deletedVaultIds
  /-- … and the staged record, where it is not older. -/
  stagedVault : ∀ item stagedItem, active.bind F.parseItem = some item → staged.bind F.parseItem = some stagedItem →
    baseline = active → item.version ≤ stagedItem.version → stagedItem.vaultId ∉ deletedVaultIds

theorem mergeItem_none (deletedVaultIds : List String) (baseline staged : Option Text) :
    mergeItem F deletedVaultIds baseline none staged =
      (if baseline.isSome then none else staged).filter fun value => !(F.parseItem value).any (·.vaultId ∈ deletedVaultIds) := rfl

omit [DecidableEq Text] in
/-- A record that is kept, or not because of its vault. -/
theorem filter_vault {value : Text} {item : CachedEncryptedItem} (deletedVaultIds : List String)
    (h : F.parseItem value = some item) :
    (some value).filter (fun value => !(F.parseItem value).any (·.vaultId ∈ deletedVaultIds)) =
      if item.vaultId ∈ deletedVaultIds then none else some value := by
  simp [Option.filter_some, h]

/-- A readable active record that was changed meanwhile, or is newer, stays unless its vault is gone. -/
theorem mergeItem_active (deletedVaultIds : List String) {baseline staged : Option Text} {value : Text}
    {item : CachedEncryptedItem} (hitem : F.parseItem value = some item)
    (h : baseline ≠ some value ∨ ∃ stagedItem, staged.bind F.parseItem = some stagedItem ∧ stagedItem.version < item.version) :
    mergeItem F deletedVaultIds baseline (some value) staged =
      if item.vaultId ∈ deletedVaultIds then none else some value := by
  have hkeeps : keepsActive F baseline staged ⟨"", value⟩ = true := by
    unfold keepsActive
    simp only [hitem, Option.any_some, Bool.decide_or, Bool.or_eq_true, decide_eq_true_eq]
    refine h.imp id fun ⟨stagedItem, hstaged, hlt⟩ => ?_
    simp [hstaged, hlt]
  unfold mergeItem
  simp only [hkeeps, if_true]
  exact filter_vault F deletedVaultIds hitem

/-- Any other gives way to the staged one. -/
theorem mergeItem_staged (deletedVaultIds : List String) {baseline staged : Option Text} {value : Text}
    (h : ∀ item, F.parseItem value = some item → baseline = some value ∧
      ∀ stagedItem, staged.bind F.parseItem = some stagedItem → item.version ≤ stagedItem.version) :
    mergeItem F deletedVaultIds baseline (some value) staged =
      staged.filter fun value => !(F.parseItem value).any (·.vaultId ∈ deletedVaultIds) := by
  have hkeeps : keepsActive F baseline staged ⟨"", value⟩ = false := by
    unfold keepsActive
    cases hitem : F.parseItem value with
    | none => rfl
    | some item =>
      obtain ⟨hbaseline, hversion⟩ := h item hitem
      simp only [Option.any_some, hbaseline, ne_eq, not_true_eq_false, false_or, decide_eq_false_iff_not, Bool.not_eq_true]
      cases hstaged : staged.bind F.parseItem with
      | none => rfl
      | some stagedItem => simpa using hversion stagedItem hstaged
  unfold mergeItem
  simp only [hkeeps, Bool.false_eq_true, if_false]

/-- An id that is not active. -/
theorem merged_iff_of_none (deletedVaultIds : List String) (deleted : Prop) (baseline staged : Option Text) :
    Merged F deleted baseline none staged (mergeItem F deletedVaultIds baseline none staged) ↔
      Mergeable F deletedVaultIds deleted baseline none staged := by
  have hno : ∀ item, (none : Option Text).bind F.parseItem = some item → False := fun _ h => by cases h
  rw [mergeItem_none]
  constructor
  · intro h
    refine ⟨fun _ _ hactive => (hno _ hactive).elim, fun hdeleted _ hbaseline value hvalue => ?_,
      fun _ hactive => (hno _ hactive).elim, fun _ _ hactive => (hno _ hactive).elim⟩
    have hnone := h.deleted hdeleted rfl
    rw [hbaseline, Option.mem_def.mp hvalue] at hnone
    simpa using hnone
  · intro h
    refine ⟨fun _ _ hactive => (hno _ hactive).elim, fun hdeleted _ => ?_, fun hactive => (by cases hactive),
      fun _ hactive => (hno _ hactive).elim⟩
    cases baseline with
    | some _ => rfl
    | none =>
      cases staged with
      | none => rfl
      | some value =>
        have hvault := h.notRestored hdeleted rfl rfl value rfl
        simp [hvault]

/-- An active record that cannot be read. -/
theorem merged_iff_of_unreadable (deletedVaultIds : List String) (deleted : Prop) (baseline staged : Option Text)
    {value : Text} (hvalue : F.parseItem value = none) :
    Merged F deleted baseline (some value) staged (mergeItem F deletedVaultIds baseline (some value) staged) ↔
      Mergeable F deletedVaultIds deleted baseline (some value) staged := by
  have hno : ∀ item, (some value).bind F.parseItem = some item → False := by
    intro item h
    rw [Option.bind_some, hvalue] at h
    cases h
  have hmerge : mergeItem F deletedVaultIds baseline (some value) staged =
      staged.filter fun value => !(F.parseItem value).any (·.vaultId ∈ deletedVaultIds) :=
    mergeItem_staged F deletedVaultIds fun item h => by rw [hvalue] at h; cases h
  rw [hmerge]
  constructor
  · intro _
    exact ⟨fun _ _ h => (hno _ h).elim, fun _ h => (by cases h), fun _ h => (hno _ h).elim, fun _ _ h => (hno _ h).elim⟩
  · intro _
    refine ⟨fun _ _ h => (hno _ h).elim, fun _ h => (by cases h), fun _ _ hnone => ?_, fun _ h => (hno _ h).elim⟩
    rw [hnone]
    rfl

/-- An active record that stays where its vault does. -/
theorem merged_iff_of_active (deletedVaultIds : List String) (deleted : Prop) {baseline staged : Option Text}
    {value : Text} {item : CachedEncryptedItem} (hitem : F.parseItem value = some item)
    (hstays : baseline ≠ some value ∨ ∃ stagedItem, staged.bind F.parseItem = some stagedItem ∧ stagedItem.version < item.version) :
    Merged F deleted baseline (some value) staged (mergeItem F deletedVaultIds baseline (some value) staged) ↔
      Mergeable F deletedVaultIds deleted baseline (some value) staged := by
  have hactive : ∀ item', (some value).bind F.parseItem = some item' ↔ item' = item := by
    intro item'
    rw [Option.bind_some, hitem, Option.some.injEq, eq_comm]
  have hkept : ∀ kept, (if item.vaultId ∈ deletedVaultIds then none else some value).bind F.parseItem = some kept →
      item.vaultId ∉ deletedVaultIds ∧ kept = item := by
    intro kept h
    split at h
    · cases h
    · next hvault => exact ⟨hvault, (hactive kept).mp h⟩
  rw [mergeItem_active F deletedVaultIds hitem hstays]
  constructor
  · intro h
    refine ⟨fun item' stagedItem hitem' hstaged _ => ?_, fun _ hnone => (by cases hnone), fun item' hitem' hor _ => ?_,
      fun item' stagedItem hitem' hstaged hbaseline hle => ?_⟩
    · obtain ⟨kept, hresult, hversion⟩ := h.newest item' stagedItem hitem' hstaged
      obtain ⟨-, rfl⟩ := hkept kept hresult
      obtain rfl := (hactive item').mp hitem'
      rw [hversion]
      exact Nat.le_max_right _ _
    · obtain rfl := (hactive item').mp hitem'
      rcases hor with hstaged | hadvanced
      · obtain ⟨stagedItem, hstaged⟩ := Option.isSome_iff_exists.mp hstaged
        obtain ⟨kept, hresult, -⟩ := h.newest item' stagedItem hitem' hstaged
        exact (hkept kept hresult).1
      · obtain ⟨kept, hresult, -⟩ := h.kept item' hitem' hadvanced
        exact (hkept kept hresult).1
    · obtain rfl := (hactive item').mp hitem'
      rcases hstays with hne | ⟨other, hother, hlt⟩
      · exact absurd hbaseline hne
      · rw [hstaged] at hother
        obtain rfl := Option.some.inj hother
        exact absurd hle (Nat.not_le.mpr hlt)
  · intro h
    have hresult : ((staged.bind F.parseItem).isSome = true ∨ Advanced F baseline item) →
        (if item.vaultId ∈ deletedVaultIds then none else some value).bind F.parseItem = some item := by
      intro hor
      rw [if_neg (h.activeVault item ((hactive item).mpr rfl) hor hstays)]
      exact (hactive item).mpr rfl
    refine ⟨fun item' stagedItem hitem' hstaged => ?_, fun _ hnone => (by cases hnone), fun _ hbaseline hnone => ?_,
      fun item' hitem' hadvanced => ?_⟩
    · obtain rfl := (hactive item').mp hitem'
      refine ⟨item', hresult (.inl (by rw [hstaged]; rfl)), (Nat.max_eq_left ?_).symm⟩
      by_cases hbaseline : baseline = some value
      · rcases hstays with hne | ⟨other, hother, hlt⟩
        · exact absurd hbaseline hne
        · rw [hstaged] at hother
          obtain rfl := Option.some.inj hother
          exact Nat.le_of_lt hlt
      · exact h.notOvertaken item' stagedItem hitem' hstaged hbaseline
    · rcases hstays with hne | ⟨other, hother, -⟩
      · exact absurd hbaseline hne
      · rw [hnone] at hother
        cases hother
    · obtain rfl := (hactive item').mp hitem'
      exact ⟨item', hresult (.inr hadvanced), Nat.le_refl _⟩

/-- An active record that gives way to the staged one. -/
theorem merged_iff_of_staged (deletedVaultIds : List String) (deleted : Prop) {staged : Option Text}
    {value : Text} {item : CachedEncryptedItem} (hitem : F.parseItem value = some item)
    (hstaged : ∀ stagedItem, staged.bind F.parseItem = some stagedItem → item.version ≤ stagedItem.version) :
    Merged F deleted (some value) (some value) staged (mergeItem F deletedVaultIds (some value) (some value) staged) ↔
      Mergeable F deletedVaultIds deleted (some value) (some value) staged := by
  have hactive : ∀ item', (some value).bind F.parseItem = some item' ↔ item' = item := by
    intro item'
    rw [Option.bind_some, hitem, Option.some.injEq, eq_comm]
  have hadvanced : ∀ item', (some value).bind F.parseItem = some item' → ¬ Advanced F (some value) item' := by
    rintro item' hitem' (hnone | ⟨before, hbefore, hlt⟩)
    · cases hnone
    · rw [hitem'] at hbefore
      obtain rfl := Option.some.inj hbefore
      exact Nat.lt_irrefl _ hlt
  rw [mergeItem_staged F deletedVaultIds fun item' h => ⟨rfl, fun stagedItem hstagedItem => by
    rw [hitem] at h
    obtain rfl := Option.some.inj h
    exact hstaged stagedItem hstagedItem⟩]
  constructor
  · intro h
    refine ⟨fun _ _ _ _ hne => absurd rfl hne, fun _ hnone => (by cases hnone), fun item' hitem' _ hor => ?_,
      fun item' stagedItem hitem' hstagedItem _ _ hvault => ?_⟩
    · obtain rfl := (hactive item').mp hitem'
      rcases hor with hne | ⟨stagedItem, hstagedItem, hlt⟩
      · exact absurd rfl hne
      · exact absurd (hstaged stagedItem hstagedItem) (Nat.not_le.mpr hlt)
    · obtain ⟨kept, hresult, -⟩ := h.newest item' stagedItem hitem' hstagedItem
      obtain ⟨t, ht, hparse⟩ := Option.bind_eq_some_iff.mp hstagedItem
      rw [ht, filter_vault F deletedVaultIds hparse, if_pos hvault] at hresult
      cases hresult
  · intro h
    refine ⟨fun item' stagedItem hitem' hstagedItem => ?_, fun _ hnone => (by cases hnone), fun _ _ hnone => ?_,
      fun item' hitem' hadv => absurd hadv (hadvanced item' hitem')⟩
    · obtain rfl := (hactive item').mp hitem'
      have hle := hstaged stagedItem hstagedItem
      have hvault := h.stagedVault item' stagedItem hitem' hstagedItem rfl hle
      obtain ⟨t, ht, hparse⟩ := Option.bind_eq_some_iff.mp hstagedItem
      refine ⟨stagedItem, ?_, (Nat.max_eq_right hle).symm⟩
      rw [ht, filter_vault F deletedVaultIds hparse, if_neg hvault]
      exact hparse
    · rw [hnone]
      rfl

/-- **The merge of one id**, and when it is the one that it is to be. -/
theorem mergeItem_merged_iff (deletedVaultIds : List String) (deleted : Prop) (baseline active staged : Option Text) :
    Merged F deleted baseline active staged (mergeItem F deletedVaultIds baseline active staged) ↔
      Mergeable F deletedVaultIds deleted baseline active staged := by
  cases active with
  | none => exact merged_iff_of_none F deletedVaultIds deleted baseline staged
  | some value =>
    cases hitem : F.parseItem value with
    | none => exact merged_iff_of_unreadable F deletedVaultIds deleted baseline staged hitem
    | some item =>
      by_cases hstays : baseline ≠ some value ∨
          ∃ stagedItem, staged.bind F.parseItem = some stagedItem ∧ stagedItem.version < item.version
      · exact merged_iff_of_active F deletedVaultIds deleted hitem hstays
      · rw [not_or, not_not] at hstays
        obtain ⟨rfl, hnot⟩ := hstays
        exact merged_iff_of_staged F deletedVaultIds deleted hitem fun stagedItem h =>
          Nat.le_of_not_lt fun hlt => hnot ⟨stagedItem, h, hlt⟩

/-! ## The promotion -/

omit [DecidableEq Text] in
@[simp] theorem RecordStore.records_settled (s : RecordStore Text) (settled : String → Bool) :
    ({ s with settled := settled } : RecordStore Text).records = s.records := rfl

omit [DecidableEq Text] in
theorem eval_valuesOf (s : RecordStore Text) (c : Collection) :
    (valuesOf c).eval RecordStore.exec s = (s, some (s.records c)) := by
  have hmap : (valuesOf c).eval RecordStore.exec s = (s, some (toMap (s.records c).rows)) := rfl
  rw [hmap, toMap_rows]

omit [DecidableEq Text] in
/-- A loop that deletes some of the records it goes through. -/
theorem eval_forM_delete (c : Collection) (p : StoredRecord Text → Bool) (records : List (StoredRecord Text))
    (s : RecordStore Text) :
    (records.forM fun record => do if p record then recordDelete c record.id : CacheM Text PUnit).eval RecordStore.exec s =
      (s.setRecords c ((s.records c).deleteWhere fun r => records.any fun x => x.id = r.id && p x), some ()) := by
  induction records generalizing s with
  | nil =>
    have hkeep : (s.records c).deleteWhere (fun r => ([] : List (StoredRecord Text)).any fun x => x.id = r.id && p x) =
        s.records c := Table.deleteWhere_of_false fun _ _ => rfl
    rw [hkeep, RecordStore.setRecords_same]
    rfl
  | cons record records ih =>
    have hone : (do if p record then recordDelete c record.id : CacheM Text PUnit).eval RecordStore.exec s =
        (s.setRecords c ((s.records c).deleteWhere fun r => record.id = r.id && p record), some ()) := by
      cases hp : p record with
      | true =>
        have hsame : (s.records c).deleteWhere (fun r => decide (record.id = r.id) && true) =
            (s.records c).deleteWhere fun r => r.id = record.id :=
          Table.deleteWhere_congr fun r _ => by simp [eq_comm]
        rw [if_pos rfl, hsame]
        rfl
      | false =>
        have hkeep : (s.records c).deleteWhere (fun r => decide (record.id = r.id) && false) = s.records c :=
          Table.deleteWhere_of_false fun _ _ => Bool.and_false _
        rw [hkeep, RecordStore.setRecords_same]
        rfl
    refine (Async.eval_bind RecordStore.exec hone).trans ?_
    rw [ih, RecordStore.setRecords_self, RecordStore.setRecords_setRecords, Table.deleteWhere_deleteWhere]
    rfl

omit [DecidableEq Text] in
theorem any_id (records : Records Text) (p : StoredRecord Text → Bool) (id : String) :
    (records.rows.any fun x => x.id = id && p x) = (records.get? id).any p := by
  rw [Bool.eq_iff_iff, List.any_eq_true, Option.any_eq_true]
  constructor
  · rintro ⟨x, hx, hboth⟩
    obtain ⟨hid, hp⟩ := Bool.and_eq_true_iff.mp hboth
    exact ⟨x, Table.get?_eq_some.mpr ⟨hx, of_decide_eq_true hid⟩, hp⟩
  · rintro ⟨x, hx, hp⟩
    obtain ⟨hmem, hid⟩ := Table.get?_eq_some.mp hx
    exact ⟨x, hmem, by simp [hid, hp]⟩

omit [DecidableEq Text] in
theorem eval_deleteMissing (s : RecordStore Text) (c : Collection) (previous baseline : Records Text) :
    (deleteMissing c previous baseline.rows).eval RecordStore.exec s =
      (s.setRecords c ((s.records c).deleteWhere fun r => (baseline.value r.id).isSome && (previous.value r.id).isNone),
        some ()) := by
  refine (eval_forM_delete c (fun record => (previous.value record.id).isNone) baseline.rows s).trans ?_
  have hsame : ((s.records c).deleteWhere fun r => baseline.rows.any fun x => x.id = r.id && (previous.value x.id).isNone) =
      (s.records c).deleteWhere fun r => (baseline.value r.id).isSome && (previous.value r.id).isNone := by
    refine Table.deleteWhere_congr fun r _ => ?_
    rw [any_id baseline (fun x => (previous.value x.id).isNone) r.id]
    unfold Records.value
    cases hget : baseline.get? r.id with
    | none => rfl
    | some x =>
      have hid : x.id = r.id := Table.key_of_get? hget
      simp [hid]
  rw [hsame]

omit [DecidableEq Text] in
theorem eval_dropOfVaults {s : RecordStore Text} {c : Collection} (deletedVaultIds : List String) {records : Records Text}
    (hrecords : s.records c = records) :
    (dropOfVaults F c deletedVaultIds records).eval RecordStore.exec s =
      (s.setRecords c (records.deleteWhere fun r => (F.parseItem r.value).any (·.vaultId ∈ deletedVaultIds)), some ()) := by
  subst hrecords
  refine (eval_forM_delete c (fun record => (F.parseItem record.value).any (·.vaultId ∈ deletedVaultIds)) _ s).trans ?_
  have hsame : ((s.records c).deleteWhere fun r => (s.records c).rows.any fun x =>
        x.id = r.id && (F.parseItem x.value).any (·.vaultId ∈ deletedVaultIds)) =
      (s.records c).deleteWhere fun r => (F.parseItem r.value).any (·.vaultId ∈ deletedVaultIds) := by
    refine Table.deleteWhere_congr fun r hr => ?_
    rw [any_id (s.records c) (fun x => (F.parseItem x.value).any (·.vaultId ∈ deletedVaultIds)) r.id, Table.get?_key hr]
    rfl
  rw [hsame]

/-- The state record that is stored. -/
def storedState (s : RecordStore Text) : ItemCacheStateDocument :=
  parseState F ((s.records .state).value META_RECORD_ID)

theorem vaultCollectionFor_cases (generation : Option String) :
    vaultCollectionFor generation = .vaults ∨ ∃ g, vaultCollectionFor generation = .stagedVaults g := by
  unfold vaultCollectionFor
  cases generation with
  | none => exact .inl rfl
  | some g =>
    dsimp only
    split
    · exact .inl rfl
    · exact .inr ⟨g, rfl⟩

theorem itemCollectionFor_cases (generation : Option String) :
    itemCollectionFor generation = .items ∨ ∃ g, itemCollectionFor generation = .stagedItems g := by
  unfold itemCollectionFor
  cases generation with
  | none => exact .inl rfl
  | some g =>
    dsimp only
    split
    · exact .inl rfl
    · exact .inr ⟨g, rfl⟩

/-- The store without the records of some collections. -/
def RecordStore.clearAll (s : RecordStore Text) (cs : List Collection) : RecordStore Text :=
  { s with records := fun c => if c ∈ cs then .empty else s.records c }

omit [DecidableEq Text] in
theorem eval_clears (cs : List Collection) (s : RecordStore Text) :
    (promiseAll (cs.map recordClear)).eval RecordStore.exec s = (s.clearAll cs, some ()) := by
  induction cs generalizing s with
  | nil => rfl
  | cons c cs ih =>
    change ((Async.orElse _ _).bind _).eval RecordStore.exec s = _
    rw [Async.eval_bind RecordStore.exec (t := s.setRecords c .empty) (a := false) rfl]
    rw [Async.bind_eq, Async.eval_bind RecordStore.exec (ih _)]
    have hsame : (s.setRecords c .empty).clearAll cs = s.clearAll (c :: cs) := by
      refine congrArg (RecordStore.mk · s.settled) (funext fun d => ?_)
      by_cases hd : d ∈ cs
      · simp [hd]
      · by_cases hdc : d = c
        · simp [hdc, RecordStore.setRecords]
        · simp [hd, hdc, RecordStore.setRecords_of_ne s hdc]
    rw [hsame]
    rfl

omit [DecidableEq Text] in
theorem recordPutMany_eval (c : Collection) (records : List (StoredRecord Text)) (s : RecordStore Text) :
    (recordPutMany c records).eval RecordStore.exec s = (s.putMany c records, some ()) := rfl

omit [DecidableEq Text] in
theorem writeState_eval (state : ItemCacheStateDocument) (s : RecordStore Text) :
    (writeState F state).eval RecordStore.exec s =
      (s.setRecords .state ((s.records .state).put ⟨META_RECORD_ID, F.stringifyState state⟩), some ()) := rfl

omit [DecidableEq Text] in
theorem settle_eval (generation : String) (s : RecordStore Text) :
    (settle generation).eval RecordStore.exec s =
      ({ s with settled := Function.update s.settled generation true }, some ()) := rfl

omit [DecidableEq Text] in
/-- What is not cleared after the switch stays. -/
theorem eval_clearReplaced (replaces : Prop) [Decidable replaces] (previous baseline : List Collection)
    (s : RecordStore Text) :
    ∃ t, (do
        if replaces then promiseAll (previous.map recordClear)
        promiseAll (baseline.map recordClear) : CacheM Text Unit).eval RecordStore.exec s = (t, some ()) ∧
      ∀ c, c ∉ previous ++ baseline → t.records c = s.records c := by
  by_cases hreplaces : replaces
  · refine ⟨(s.clearAll previous).clearAll baseline, ?_, fun c hc => ?_⟩
    · rw [if_pos hreplaces, Async.bind_eq, Async.eval_bind RecordStore.exec (eval_clears previous s)]
      exact eval_clears baseline _
    · obtain ⟨hc, hc'⟩ := not_or.mp (mt List.mem_append.mpr hc)
      exact (if_neg hc').trans (if_neg hc)
  · refine ⟨s.clearAll baseline, ?_, fun c hc => if_neg (not_or.mp (mt List.mem_append.mpr hc)).2⟩
    rw [if_neg hreplaces]
    exact eval_clears baseline s

/-- **What a promotion leaves** of the staged items, and of the state record. -/
theorem eval_promoteLocked {generation : String} (lastFullSyncAt cacheVersion : Nat) (syncBaseline : Option (String × Option String))
    (hitems : itemCollectionFor (storedState F s).activeGeneration ≠ .stagedItems generation) :
    ∃ t, (promoteLocked F generation lastFullSyncAt cacheVersion syncBaseline).eval RecordStore.exec s = (t, some ()) ∧
      t.records (.stagedItems generation) =
        mergedItems F
          (deletedVaultIds (s.records (.stagedVaultBaseline generation))
            (s.records (vaultCollectionFor (storedState F s).activeGeneration)))
          (s.records (.stagedItemBaseline generation)) (s.records (itemCollectionFor (storedState F s).activeGeneration))
          (s.records (.stagedItems generation)) ∧
      ∃ metadata, (t.records .state).value META_RECORD_ID = some (F.stringifyState
        { v := ITEM_CACHE_STATE_VERSION, itemsPrimed := true, vaultsPrimed := true, metadata := some metadata,
          activeGeneration := some generation, nativeView := nativeViewFor F (some generation) }) := by
  unfold promoteLocked
  rw [Async.bind_eq, Async.eval_bind RecordStore.exec (t := s) (a := storedState F s) rfl]
  rw [Async.bind_eq, Async.eval_bind RecordStore.exec (eval_valuesOf s _)]
  rw [Async.bind_eq, Async.eval_bind RecordStore.exec (t := s) (a := (s.records _).rows) rfl]
  rw [Async.bind_eq, Async.eval_bind RecordStore.exec (eval_valuesOf s _)]
  rw [toMap_rows]
  rw [Async.bind_eq, Async.eval_bind RecordStore.exec (eval_deleteMissing s _ _ _)]
  dsimp only
  have hbaseline : ∀ K : Records Text, (s.setRecords (.stagedItems generation) K).records (.stagedVaultBaseline generation) =
      s.records (.stagedVaultBaseline generation) := fun K =>
    RecordStore.setRecords_of_ne s (fun h => by cases h) K
  have hprevious : ∀ K : Records Text,
      (s.setRecords (.stagedItems generation) K).records (vaultCollectionFor (storedState F s).activeGeneration) =
        s.records (vaultCollectionFor (storedState F s).activeGeneration) := by
    refine fun K => RecordStore.setRecords_of_ne s ?_ K
    rcases vaultCollectionFor_cases (storedState F s).activeGeneration with h | ⟨g, h⟩ <;> rw [h] <;> nofun
  have hput : (recordPutMany (.stagedItems generation) (keepItems F (s.records (.stagedItemBaseline generation))
        (s.records (itemCollectionFor (storedState F s).activeGeneration)).rows
        ((s.records (.stagedItems generation)).deleteWhere fun r =>
          ((s.records (.stagedItemBaseline generation)).value r.id).isSome &&
            ((s.records (itemCollectionFor (storedState F s).activeGeneration)).value r.id).isNone)).1).eval RecordStore.exec
      (s.setRecords (.stagedItems generation) ((s.records (.stagedItems generation)).deleteWhere fun r =>
          ((s.records (.stagedItemBaseline generation)).value r.id).isSome &&
            ((s.records (itemCollectionFor (storedState F s).activeGeneration)).value r.id).isNone)) =
      (s.setRecords (.stagedItems generation) (keepItems F (s.records (.stagedItemBaseline generation))
        (s.records (itemCollectionFor (storedState F s).activeGeneration)).rows
        ((s.records (.stagedItems generation)).deleteWhere fun r =>
          ((s.records (.stagedItemBaseline generation)).value r.id).isSome &&
            ((s.records (itemCollectionFor (storedState F s).activeGeneration)).value r.id).isNone)).2, some ()) := by
    rw [keepItems_eq F _ _ _ (s.records (itemCollectionFor (storedState F s).activeGeneration)).nodup]
    change (RecordStore.putMany _ _ _, some ()) = _
    rw [RecordStore.putMany, RecordStore.setRecords_self, RecordStore.setRecords_setRecords]
  rw [Async.bind_eq, Async.eval_bind RecordStore.exec hput]
  rw [Async.bind_eq, Async.eval_bind RecordStore.exec (eval_valuesOf _ _), hbaseline]
  rw [Async.bind_eq, Async.eval_bind RecordStore.exec (t := s.setRecords (.stagedItems generation) _)
    (a := (s.records (vaultCollectionFor (storedState F s).activeGeneration)).rows) (by rw [← hprevious]; rfl)]
  rw [toMap_rows]
  rw [Async.bind_eq, Async.eval_bind RecordStore.exec (eval_deleteMissing _ _ _ _)]
  rw [Async.bind_eq, Async.eval_bind RecordStore.exec (eval_dropOfVaults F _
    ((RecordStore.setRecords_of_ne _ (fun h => by cases h) _).trans (RecordStore.setRecords_self ..)))]
  rw [Async.bind_eq, Async.eval_bind RecordStore.exec (recordPutMany_eval _ _ _)]
  rw [Async.bind_eq, Async.eval_bind RecordStore.exec (writeState_eval F _ _)]
  rw [Async.bind_eq, Async.eval_bind RecordStore.exec (settle_eval generation _)]
  obtain ⟨t, ht, hframe⟩ := eval_clearReplaced ((storedState F s).activeGeneration ≠ none)
    [itemCollectionFor (storedState F s).activeGeneration, vaultCollectionFor (storedState F s).activeGeneration]
    [.stagedItemBaseline generation, .stagedVaultBaseline generation] _
  have hvaults := vaultCollectionFor_cases (storedState F s).activeGeneration
  refine ⟨t, ht, (hframe (.stagedItems generation) ?_).trans ?_, ?_⟩
  · simp only [List.cons_append, List.nil_append, List.mem_cons, List.not_mem_nil, or_false, not_or]
    refine ⟨fun h => hitems h.symm, ?_, (fun h => by cases h), fun h => by cases h⟩
    rcases hvaults with h | ⟨g, h⟩ <;> rw [h] <;> exact fun h => by cases h
  · rw [RecordStore.records_settled, RecordStore.setRecords_of_ne _ (fun h => by cases h), RecordStore.putMany,
      RecordStore.setRecords_of_ne _ (fun h => by cases h), RecordStore.setRecords_self]
    rfl
  · have hstate : Collection.state ∉
        [itemCollectionFor (storedState F s).activeGeneration, vaultCollectionFor (storedState F s).activeGeneration] ++
          [.stagedItemBaseline generation, .stagedVaultBaseline generation] := by
      simp only [List.cons_append, List.nil_append, List.mem_cons, List.not_mem_nil, or_false, not_or]
      refine ⟨?_, ?_, (fun h => by cases h), fun h => by cases h⟩
      · rcases itemCollectionFor_cases (storedState F s).activeGeneration with h | ⟨g, h⟩ <;> rw [h] <;>
          exact fun h => by cases h
      · rcases hvaults with h | ⟨g, h⟩ <;> rw [h] <;> exact fun h => by cases h
    rw [hframe .state hstate, RecordStore.records_settled, RecordStore.setRecords_self]
    simp only [value_put, if_true]
    exact ⟨_, rfl⟩

end Merge

end Bittery.ItemCache
