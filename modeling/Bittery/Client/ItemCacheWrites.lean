/-
The writes of the item cache, run on their own: what a write leaves, and that a batch of writes
leaves what the same writes leave one after the other.
-/
import Bittery.Client.ItemCache

namespace Bittery.ItemCache

open Lib

variable {Text : Type} (F : CacheFormat Text) {s : RecordStore Text} {c : Collection}

namespace RecordStore

@[simp] theorem setRecords_self (s : RecordStore Text) (c : Collection) (records : Records Text) :
    (s.setRecords c records).records c = records := Function.update_self ..

theorem setRecords_of_ne (s : RecordStore Text) {c d : Collection} (h : d ≠ c) (records : Records Text) :
    (s.setRecords c records).records d = s.records d := Function.update_of_ne h _ _

@[simp] theorem setRecords_same (s : RecordStore Text) (c : Collection) : s.setRecords c (s.records c) = s := by
  unfold setRecords
  rw [Function.update_eq_self]

@[simp] theorem setRecords_setRecords (s : RecordStore Text) (c : Collection) (records records' : Records Text) :
    (s.setRecords c records).setRecords c records' = s.setRecords c records' := by
  unfold setRecords
  simp

end RecordStore

/-! ## Maps -/

theorem toMap_rows (records : Records Text) : toMap records.rows = records := Table.foldl_put_rows records

theorem value_put (records : Records Text) (r : StoredRecord Text) (id : String) :
    Records.value (records.put r) id = if id = r.id then some r.value else records.value id := by
  unfold Records.value
  rw [Table.get?_put]
  split <;> rfl

/-- A map put over another. -/
theorem value_foldl_put (accepted stored : Records Text) (id : String) :
    Records.value (accepted.rows.foldl Table.put stored) id = (accepted.value id).or (stored.value id) := by
  unfold Records.value
  rw [Table.get?_foldl_put accepted.nodup]
  change ((accepted.get? id).or _).map _ = _
  cases accepted.get? id <;> rfl

/-! ## One write -/

/-- What `writeNewerItem` makes of a collection. -/
def newerItem (records : Records Text) (item : CachedEncryptedItem) : Records Text :=
  if storedIsNewer F (records.value item.id) item then records else records.put ⟨item.id, F.stringifyItem item⟩

theorem eval_writeNewerItem (s : RecordStore Text) (c : Collection) (item : CachedEncryptedItem) :
    (writeNewerItem F c item).eval RecordStore.exec s =
      (s.setRecords c (newerItem F (s.records c) item), some !storedIsNewer F ((s.records c).value item.id) item) := by
  unfold writeNewerItem newerItem
  rw [Async.bind_eq, Async.eval_bind RecordStore.exec (a := (s.records c).value item.id) (t := s) rfl]
  cases h : storedIsNewer F ((s.records c).value item.id) item with
  | true => simp
  | false => rfl

/-! ## A batch of writes -/

/-- What the batch puts over what is stored is what the writes leave one after the other. -/
theorem acceptItem_put (stored accepted : Records Text) (item : CachedEncryptedItem) :
    (acceptItem F stored accepted item).rows.foldl Table.put stored =
      newerItem F (accepted.rows.foldl Table.put stored) item := by
  unfold acceptItem newerItem
  rw [value_foldl_put]
  split
  · rfl
  · exact Table.foldl_put_put stored accepted _

theorem foldl_acceptItem (stored accepted : Records Text) (items : List CachedEncryptedItem) :
    (items.foldl (acceptItem F stored) accepted).rows.foldl Table.put stored =
      items.foldl (newerItem F) (accepted.rows.foldl Table.put stored) := by
  induction items generalizing accepted with
  | nil => rfl
  | cons item items ih => rw [List.foldl_cons, ih, acceptItem_put, List.foldl_cons]

theorem eval_forM_writeNewerItem (s : RecordStore Text) (c : Collection) (items : List CachedEncryptedItem) :
    (items.forM fun item => Functor.discard (writeNewerItem F c item)).eval RecordStore.exec s =
      (s.setRecords c (items.foldl (newerItem F) (s.records c)), some ()) := by
  induction items generalizing s with
  | nil => simp
  | cons item items ih =>
    have hone : (Functor.discard (writeNewerItem F c item)).eval RecordStore.exec s =
        (s.setRecords c (newerItem F (s.records c) item), some ()) :=
      Async.eval_bind RecordStore.exec (eval_writeNewerItem F s c item)
    refine (Async.eval_bind RecordStore.exec hone).trans ?_
    rw [ih]
    simp

/-- **A batch is its writes.** Writing a list of items at once leaves the cache as writing them one after the
other does, whatever is stored, and however often an id is in the list. -/
theorem writeNewerItems_eq_sequential (s : RecordStore Text) (c : Collection) (items : List CachedEncryptedItem) :
    (writeNewerItems F c items).eval RecordStore.exec s =
      (items.forM fun item => Functor.discard (writeNewerItem F c item)).eval RecordStore.exec s := by
  rw [eval_forM_writeNewerItem]
  unfold writeNewerItems
  split
  · next h =>
    subst h
    simp
  · have hvalues : (valuesOf c).eval RecordStore.exec s = (s, some (s.records c)) := by
      have hmap : (valuesOf c).eval RecordStore.exec s = (s, some (toMap (s.records c).rows)) := rfl
      rw [hmap, toMap_rows]
    rw [Async.bind_eq, Async.eval_bind RecordStore.exec hvalues]
    have hput : ∀ records : List (StoredRecord Text),
        (recordPutMany c records).eval RecordStore.exec s = (s.putMany c records, some ()) := fun _ => rfl
    rw [hput]
    have hempty : ∀ stored : Records Text, (Table.empty : Records Text).rows.foldl Table.put stored = stored := fun _ => rfl
    rw [RecordStore.putMany, foldl_acceptItem, hempty]

end Bittery.ItemCache
