/-
Transactions under snapshot isolation, one table at a time.

A transaction reads the table as it was when the transaction began and writes the table
as it is now. A write to a row that another transaction has changed or deleted since the
snapshot is refused (first updater wins). A row that another transaction has inserted
since is not seen, by the reads or by the writes, and nothing is refused for it.
-/
import Bittery.Lib.Table

namespace Lib

universe u v

/-- A value as a transaction sees it and as it is now. -/
structure Versions (τ : Type u) where
  snapshot : τ
  current : τ
deriving DecidableEq

/-- Nothing happened since the snapshot. -/
def Versions.still {τ : Type u} (t : τ) : Versions τ := ⟨t, t⟩

namespace Table

variable {ρ : Type u} {κ : Type v} {key : ρ → κ}

/-- The rows the transaction sees that meet `p` are as they were. -/
def Untouched (v : Versions (Table key)) (p : ρ → Bool) : Prop :=
  ∀ r ∈ v.snapshot.rows, p r = true → r ∈ v.current.rows

section Write

variable [DecidableEq ρ]

instance (v : Versions (Table key)) (p : ρ → Bool) : Decidable (Untouched v p) :=
  inferInstanceAs (Decidable (∀ r ∈ v.snapshot.rows, p r = true → r ∈ v.current.rows))

/-- `UPDATE … WHERE p`: `none` is a serialization failure. -/
def updateSeen (v : Versions (Table key)) (p : ρ → Bool) (f : ρ → ρ) (hf : ∀ r, key (f r) = key r) :
    Option (Versions (Table key)) :=
  if Untouched v p then
    some ⟨v.snapshot.updateWhere p f hf, v.current.updateWhere (fun r => p r && decide (r ∈ v.snapshot)) f hf⟩
  else none

/-- `DELETE … WHERE p`. -/
def deleteSeen (v : Versions (Table key)) (p : ρ → Bool) : Option (Versions (Table key)) :=
  if Untouched v p then
    some ⟨v.snapshot.deleteWhere p, v.current.deleteWhere fun r => p r && decide (r ∈ v.snapshot)⟩
  else none

theorem updateSeen_eq_some {v v' : Versions (Table key)} {p : ρ → Bool} {f : ρ → ρ}
    {hf : ∀ r, key (f r) = key r} :
    updateSeen v p f hf = some v' ↔ Untouched v p ∧ v' = ⟨v.snapshot.updateWhere p f hf,
      v.current.updateWhere (fun r => p r && decide (r ∈ v.snapshot)) f hf⟩ := by
  simp only [updateSeen]
  split
  · next h => simp [h, eq_comm]
  · next h => simp [h]

theorem deleteSeen_eq_some {v v' : Versions (Table key)} {p : ρ → Bool} :
    deleteSeen v p = some v' ↔ Untouched v p ∧
      v' = ⟨v.snapshot.deleteWhere p, v.current.deleteWhere fun r => p r && decide (r ∈ v.snapshot)⟩ := by
  simp only [deleteSeen]
  split
  · next h => simp [h, eq_comm]
  · next h => simp [h]

/-! ### A transaction that nothing overlapped -/

theorem updateWhere_mem_self {t : Table key} {p : ρ → Bool} {f : ρ → ρ} {hf : ∀ r, key (f r) = key r} :
    t.updateWhere (fun r => p r && decide (r ∈ t)) f hf = t.updateWhere p f hf := by
  apply ext
  refine List.map_congr_left fun r hr => ?_
  have : decide (r ∈ t) = true := decide_eq_true hr
  simp only [this, Bool.and_true]

theorem deleteWhere_mem_self {t : Table key} {p : ρ → Bool} :
    t.deleteWhere (fun r => p r && decide (r ∈ t)) = t.deleteWhere p := by
  apply ext
  refine List.filter_congr fun r hr => ?_
  have : decide (r ∈ t) = true := decide_eq_true hr
  simp only [this, Bool.and_true]

end Write

section Insert

variable [DecidableEq κ]

/-- `INSERT`: refused when either version has the key. -/
def insertSeen (v : Versions (Table key)) (r : ρ) : Option (Versions (Table key)) :=
  (v.snapshot.insert r).bind fun s => (v.current.insert r).map fun c => ⟨s, c⟩

theorem insertSeen_eq_some {v v' : Versions (Table key)} {r : ρ} :
    insertSeen v r = some v' ↔ v.snapshot.insert r = some v'.snapshot ∧ v.current.insert r = some v'.current := by
  simp only [insertSeen, Option.bind_eq_some_iff, Option.map_eq_some_iff]
  constructor
  · rintro ⟨s, hs, c, hc, rfl⟩; exact ⟨hs, hc⟩
  · rintro ⟨hs, hc⟩; exact ⟨_, hs, _, hc, rfl⟩

end Insert

end Table

/-! ## Transactions on a database of several tables -/

/-- One table of a database `τ`. -/
structure TableOf (τ : Type u) {ρ : Type u} {κ : Type v} (key : ρ → κ) where
  get : τ → Table key
  set : τ → Table key → τ

namespace TableOf

variable {τ ρ : Type u} {κ : Type v} {key : ρ → κ} (c : TableOf τ key)

def versions (v : Versions τ) : Versions (Table key) := ⟨c.get v.snapshot, c.get v.current⟩

def put (v : Versions τ) (t : Versions (Table key)) : Versions τ :=
  ⟨c.set v.snapshot t.snapshot, c.set v.current t.current⟩

/-- `SELECT … FOR UPDATE`: `none` is a serialization failure. -/
def lock [DecidableEq ρ] (v : Versions τ) (p : ρ → Bool) : Option Unit :=
  if Table.Untouched (c.versions v) p then some () else none

def update [DecidableEq ρ] (v : Versions τ) (p : ρ → Bool) (f : ρ → ρ) (hf : ∀ r, key (f r) = key r) :
    Option (Versions τ) :=
  (Table.updateSeen (c.versions v) p f hf).map (c.put v)

def delete [DecidableEq ρ] (v : Versions τ) (p : ρ → Bool) : Option (Versions τ) :=
  (Table.deleteSeen (c.versions v) p).map (c.put v)

def insert [DecidableEq κ] (v : Versions τ) (r : ρ) : Option (Versions τ) :=
  (Table.insertSeen (c.versions v) r).map (c.put v)

variable {c} {v v' : Versions τ}

theorem lock_eq_some [DecidableEq ρ] {p : ρ → Bool} :
    c.lock v p = some () ↔ Table.Untouched (c.versions v) p := by
  by_cases h : Table.Untouched (c.versions v) p <;> simp [lock, h]

theorem update_eq_some [DecidableEq ρ] {p : ρ → Bool} {f : ρ → ρ} {hf : ∀ r, key (f r) = key r} :
    c.update v p f hf = some v' ↔ Table.Untouched (c.versions v) p ∧
      v' = ⟨c.set v.snapshot ((c.get v.snapshot).updateWhere p f hf),
        c.set v.current ((c.get v.current).updateWhere (fun r => p r && decide (r ∈ c.get v.snapshot)) f hf)⟩ := by
  simp only [update, Option.map_eq_some_iff, Table.updateSeen_eq_some, eq_comm (b := v')]
  constructor
  · rintro ⟨t, ⟨hu, rfl⟩, hv⟩; exact ⟨hu, hv⟩
  · rintro ⟨hu, hv⟩; exact ⟨_, ⟨hu, rfl⟩, hv⟩

theorem delete_eq_some [DecidableEq ρ] {p : ρ → Bool} :
    c.delete v p = some v' ↔ Table.Untouched (c.versions v) p ∧
      v' = ⟨c.set v.snapshot ((c.get v.snapshot).deleteWhere p),
        c.set v.current ((c.get v.current).deleteWhere fun r => p r && decide (r ∈ c.get v.snapshot))⟩ := by
  simp only [delete, Option.map_eq_some_iff, Table.deleteSeen_eq_some, eq_comm (b := v')]
  constructor
  · rintro ⟨t, ⟨hu, rfl⟩, hv⟩; exact ⟨hu, hv⟩
  · rintro ⟨hu, hv⟩; exact ⟨_, ⟨hu, rfl⟩, hv⟩

theorem insert_eq_some [DecidableEq κ] {r : ρ} :
    c.insert v r = some v' ↔ ∃ s t, (c.get v.snapshot).insert r = some s ∧ (c.get v.current).insert r = some t ∧
      v' = ⟨c.set v.snapshot s, c.set v.current t⟩ := by
  simp only [insert, Option.map_eq_some_iff, Table.insertSeen_eq_some, eq_comm (b := v')]
  constructor
  · rintro ⟨t, ⟨hs, ht⟩, hv⟩; exact ⟨_, _, hs, ht, hv⟩
  · rintro ⟨s, t, hs, ht, hv⟩; exact ⟨⟨s, t⟩, ⟨hs, ht⟩, hv⟩

end TableOf

end Lib
