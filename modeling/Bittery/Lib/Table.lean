/-
Tables: finite sets of rows with a primary key.

A `Table key` is a list of rows in which no two rows have the same key; the proof is
a field, so a table with a duplicate key cannot be built. The operations are the four
statements a program sends to a database: insert (refused on a key that is there),
update of the rows that meet a condition, delete of the rows that meet a condition,
and select. An update carries the proof that it leaves the key of every row alone.
-/
import Mathlib.Data.List.Nodup
import Mathlib.Data.List.Perm.Basic
import Mathlib.Algebra.Order.BigOperators.Group.List
import Mathlib.Tactic.Abel

namespace Lib

universe u v

/-- Rows with pairwise different keys. -/
structure Table {ρ : Type u} {κ : Type v} (key : ρ → κ) where
  rows : List ρ
  nodup : (rows.map key).Nodup

namespace Table

variable {ρ : Type u} {κ : Type v} {key : ρ → κ}

@[ext] theorem ext {t t' : Table key} (h : t.rows = t'.rows) : t = t' := by
  cases t; cases t'; cases h; rfl

instance [DecidableEq ρ] : DecidableEq (Table key) := fun t t' =>
  decidable_of_iff (t.rows = t'.rows) ⟨ext, fun h => h ▸ rfl⟩

def empty : Table key := ⟨[], List.nodup_nil⟩

instance : Inhabited (Table key) := ⟨empty⟩

instance : Membership ρ (Table key) := ⟨fun t r => r ∈ t.rows⟩

instance [DecidableEq ρ] (t : Table key) (r : ρ) : Decidable (r ∈ t) :=
  inferInstanceAs (Decidable (r ∈ t.rows))

instance (t : Table key) (p : ρ → Prop) [DecidablePred p] : Decidable (∀ r ∈ t, p r) :=
  inferInstanceAs (Decidable (∀ r ∈ t.rows, p r))

theorem mem_rows {t : Table key} {r : ρ} : r ∈ t.rows ↔ r ∈ t := Iff.rfl

@[simp] theorem not_mem_empty (r : ρ) : ¬ r ∈ (empty : Table key) := List.not_mem_nil

/-- Two rows with the same key are the same row. -/
theorem eq_of_key_eq {t : Table key} {r r' : ρ} (h : r ∈ t) (h' : r' ∈ t) (hk : key r = key r') : r = r' :=
  List.inj_on_of_nodup_map t.nodup h h' hk

/-! ## Reading -/

section Get

variable [DecidableEq κ]

/-- The row under a key. -/
def get? (t : Table key) (k : κ) : Option ρ := t.rows.find? fun r => key r = k

theorem get?_eq_some {t : Table key} {k : κ} {r : ρ} : t.get? k = some r ↔ r ∈ t ∧ key r = k := by
  constructor
  · intro h
    exact ⟨List.mem_of_find?_eq_some h, by simpa using List.find?_some h⟩
  · rintro ⟨hm, rfl⟩
    cases hf : t.get? (key r) with
    | none => simpa using List.find?_eq_none.mp hf r hm
    | some r' =>
      have hk : key r' = key r := by simpa using List.find?_some hf
      rw [eq_of_key_eq (List.mem_of_find?_eq_some hf) hm hk]

theorem get?_eq_none {t : Table key} {k : κ} : t.get? k = none ↔ ∀ r ∈ t, key r ≠ k := by
  simp only [get?, List.find?_eq_none, decide_eq_true_eq, mem_rows]

theorem get?_key {t : Table key} {r : ρ} (h : r ∈ t) : t.get? (key r) = some r := get?_eq_some.mpr ⟨h, rfl⟩

theorem mem_of_get? {t : Table key} {k : κ} {r : ρ} (h : t.get? k = some r) : r ∈ t := (get?_eq_some.mp h).1

theorem key_of_get? {t : Table key} {k : κ} {r : ρ} (h : t.get? k = some r) : key r = k := (get?_eq_some.mp h).2

@[simp] theorem get?_empty (k : κ) : (empty : Table key).get? k = none := rfl

theorem isSome_get?_iff {t : Table key} {k : κ} : (t.get? k).isSome ↔ ∃ r ∈ t, key r = k := by
  simp only [Option.isSome_iff_exists, get?_eq_some]

end Get

/-! ## Insert -/

section Insert

variable [DecidableEq κ]

/-- Adds a row; `none` when its key is taken. -/
def insert (t : Table key) (r : ρ) : Option (Table key) :=
  if h : key r ∈ t.rows.map key then none
  else some ⟨t.rows ++ [r], by
    rw [List.map_append, List.map_singleton]
    exact t.nodup.append (List.nodup_singleton _) (by simpa using h)⟩

theorem insert_eq_none {t : Table key} {r : ρ} : t.insert r = none ↔ ∃ r' ∈ t, key r' = key r := by
  simp only [insert]
  split
  · next h => simpa [mem_rows] using h
  · next h => simpa [mem_rows] using h

theorem insert_rows {t t' : Table key} {r : ρ} (h : t.insert r = some t') : t'.rows = t.rows ++ [r] := by
  simp only [insert] at h
  split at h
  · cases h
  · cases h; rfl

theorem insert_fresh {t t' : Table key} {r : ρ} (h : t.insert r = some t') : ∀ r' ∈ t, key r' ≠ key r := by
  intro r' hm hk
  rw [insert_eq_none.mpr ⟨r', hm, hk⟩] at h
  cases h

theorem mem_insert {t t' : Table key} {r : ρ} (h : t.insert r = some t') (x : ρ) : x ∈ t' ↔ x ∈ t ∨ x = r := by
  rw [← mem_rows, insert_rows h, List.mem_append, List.mem_singleton, mem_rows]

theorem get?_insert {t t' : Table key} {r : ρ} (h : t.insert r = some t') (k : κ) :
    t'.get? k = if k = key r then some r else t.get? k := by
  split
  · next hk => subst hk; exact get?_key ((mem_insert h r).mpr (.inr rfl))
  · next hk =>
    apply Option.ext
    intro x
    rw [get?_eq_some, get?_eq_some, mem_insert h]
    constructor
    · rintro ⟨hm | rfl, hx⟩
      · exact ⟨hm, hx⟩
      · exact absurd hx.symm hk
    · rintro ⟨hm, hx⟩; exact ⟨.inl hm, hx⟩

end Insert

/-! ## Update -/

/-- Rewrites the rows that meet `p`; the rewriting may not touch the key. -/
def updateWhere (t : Table key) (p : ρ → Bool) (f : ρ → ρ)
    (hf : ∀ r, key (f r) = key r := by intro r; rfl) : Table key :=
  ⟨t.rows.map fun r => if p r then f r else r, by
    have : (t.rows.map fun r => if p r then f r else r).map key = t.rows.map key := by
      rw [List.map_map]
      refine List.map_congr_left fun r _ => ?_
      simp only [Function.comp]
      split
      · exact hf r
      · rfl
    rw [this]; exact t.nodup⟩

theorem mem_updateWhere {t : Table key} {p : ρ → Bool} {f : ρ → ρ} {hf : ∀ r, key (f r) = key r} {x : ρ} :
    x ∈ t.updateWhere p f hf ↔ ∃ r ∈ t, (if p r then f r else r) = x := by
  rw [← mem_rows, updateWhere, List.mem_map]; rfl

theorem get?_updateWhere [DecidableEq κ] {t : Table key} {p : ρ → Bool} {f : ρ → ρ}
    {hf : ∀ r, key (f r) = key r} (k : κ) :
    (t.updateWhere p f hf).get? k = (t.get? k).map fun r => if p r then f r else r := by
  cases h : t.get? k with
  | none =>
    rw [Option.map_none, get?_eq_none]
    intro x hx
    obtain ⟨r, hm, rfl⟩ := mem_updateWhere.mp hx
    have hk := get?_eq_none.mp h r hm
    split
    · rwa [hf r]
    · exact hk
  | some r =>
    obtain ⟨hm, hk⟩ := get?_eq_some.mp h
    rw [Option.map_some, get?_eq_some]
    refine ⟨mem_updateWhere.mpr ⟨r, hm, rfl⟩, ?_⟩
    split
    · rw [hf r, hk]
    · exact hk

/-- Frame: an update of rows that have `q`, which keeps `q`, leaves the rows without it alone. -/
theorem updateWhere_frame {t : Table key} {p : ρ → Bool} {f : ρ → ρ} {hf : ∀ r, key (f r) = key r} (q : ρ → Prop)
    (hp : ∀ r, p r = true → q r) (hq : ∀ r, q r → q (f r)) {x : ρ} (hx : ¬ q x) :
    x ∈ t.updateWhere p f hf ↔ x ∈ t := by
  rw [mem_updateWhere]
  constructor
  · rintro ⟨r, hr, rfl⟩
    by_cases hpr : p r = true
    · rw [if_pos hpr] at hx
      exact absurd (hq r (hp r hpr)) hx
    · rwa [if_neg hpr]
  · intro hm
    exact ⟨x, hm, if_neg fun hpx => hx (hp x hpx)⟩

/-! ## Put -/

section Put

variable [DecidableEq κ]

/-- Adds a row, or puts it in the place of the one with its key. -/
def put (t : Table key) (r : ρ) : Table key :=
  (t.insert r).getD (t.updateWhere (fun _ => true) (fun x => if key x = key r then r else x)
    fun x => by split <;> simp_all)

theorem get?_put {t : Table key} {r : ρ} (k : κ) : (t.put r).get? k = if k = key r then some r else t.get? k := by
  unfold put
  cases h : t.insert r with
  | some t' => exact get?_insert h k
  | none =>
    obtain ⟨r', hr', hkey⟩ := insert_eq_none.mp h
    rw [Option.getD_none, get?_updateWhere]
    by_cases hk : k = key r
    · subst hk
      rw [← hkey, get?_key hr']
      simp [hkey]
    · rw [if_neg hk]
      cases hget : t.get? k with
      | none => rfl
      | some x => simp [key_of_get? hget, hk]

@[simp] theorem get?_put_self {t : Table key} {r : ρ} : (t.put r).get? (key r) = some r := by
  rw [get?_put, if_pos rfl]

theorem get?_put_of_ne {t : Table key} {r : ρ} {k : κ} (h : k ≠ key r) : (t.put r).get? k = t.get? k := by
  rw [get?_put, if_neg h]

theorem put_rows_of_fresh {t : Table key} {r : ρ} (h : ∀ x ∈ t, key x ≠ key r) : (t.put r).rows = t.rows ++ [r] := by
  unfold put
  cases hinsert : t.insert r with
  | some t' => exact insert_rows hinsert
  | none =>
    obtain ⟨x, hx, hkey⟩ := insert_eq_none.mp hinsert
    exact absurd hkey (h x hx)

theorem put_rows_of_mem {t : Table key} {r x : ρ} (hx : x ∈ t) (hkey : key x = key r) :
    (t.put r).rows = t.rows.map fun x => if key x = key r then r else x := by
  unfold put
  rw [insert_eq_none.mpr ⟨x, hx, hkey⟩, Option.getD_none]
  exact List.map_congr_left fun x _ => if_pos rfl

theorem mem_put {t : Table key} {r x : ρ} : x ∈ t.put r ↔ x = r ∨ (x ∈ t ∧ key x ≠ key r) := by
  constructor
  · intro hx
    have hget := get?_key hx
    rw [get?_put] at hget
    split at hget
    · exact .inl (Option.some.inj hget).symm
    · next hne => exact .inr ⟨mem_of_get? hget, hne⟩
  · rintro (rfl | ⟨hx, hne⟩)
    · exact mem_of_get? get?_put_self
    · exact mem_of_get? ((get?_put_of_ne hne).trans (get?_key hx))

/-- Of two puts with one key the later one counts. -/
theorem put_put_self {t : Table key} {x r : ρ} (hkey : key x = key r) : (t.put x).put r = t.put r := by
  refine ext ?_
  rw [put_rows_of_mem (mem_of_get? get?_put_self) hkey]
  by_cases h : ∃ y ∈ t, key y = key x
  · obtain ⟨y, hy, hyx⟩ := h
    rw [put_rows_of_mem hy hyx, put_rows_of_mem hy (hyx.trans hkey), List.map_map]
    refine List.map_congr_left fun z _ => ?_
    simp only [Function.comp_apply, hkey]
    split
    · simp
    · simp
  · have hfresh : ∀ y ∈ t, key y ≠ key x := fun y hy hyx => h ⟨y, hy, hyx⟩
    rw [put_rows_of_fresh hfresh, put_rows_of_fresh fun y hy => hkey ▸ hfresh y hy, List.map_append]
    have hsame : (t.rows.map fun y => if key y = key r then r else y) = t.rows := by
      refine (List.map_congr_left fun y hy => ?_).trans (List.map_id _)
      exact if_neg (hkey ▸ hfresh y hy)
    rw [hsame]
    simp [hkey]

/-- A row that is there keeps its place, whatever is put beside it. -/
theorem put_comm {t : Table key} {x r : ρ} (h : ∃ y ∈ t, key y = key r) (hne : key x ≠ key r) :
    (t.put x).put r = (t.put r).put x := by
  obtain ⟨y, hy, hyr⟩ := h
  refine ext ?_
  have hy' : y ∈ t.put x := mem_put.mpr (.inr ⟨hy, fun hyx => hne (hyx.symm.trans hyr)⟩)
  rw [put_rows_of_mem hy' hyr]
  by_cases hmem : ∃ z ∈ t, key z = key x
  · obtain ⟨z, hz, hzx⟩ := hmem
    have hz' : z ∈ t.put r := mem_put.mpr (.inr ⟨hz, fun hzr => hne (hzx.symm.trans hzr)⟩)
    rw [put_rows_of_mem hz hzx, put_rows_of_mem hz' hzx, put_rows_of_mem hy hyr, List.map_map, List.map_map]
    refine List.map_congr_left fun w _ => ?_
    simp only [Function.comp_apply]
    by_cases hwx : key w = key x
    · have hwr : key w ≠ key r := fun hwr => hne (hwx.symm.trans hwr)
      rw [if_pos hwx, if_neg hwr, if_neg hne, if_pos hwx]
    · rw [if_neg hwx]
      by_cases hwr : key w = key r
      · rw [if_pos hwr, if_neg fun hrx => hne hrx.symm]
      · rw [if_neg hwr, if_neg hwx]
  · have hfresh : ∀ z ∈ t, key z ≠ key x := fun z hz hzx => hmem ⟨z, hz, hzx⟩
    have hfresh' : ∀ z ∈ t.put r, key z ≠ key x := by
      intro z hz hzx
      rcases mem_put.mp hz with rfl | ⟨hz, -⟩
      · exact hne hzx.symm
      · exact hfresh z hz hzx
    rw [put_rows_of_fresh hfresh, put_rows_of_fresh hfresh', put_rows_of_mem hy hyr, List.map_append, List.map_singleton,
      if_neg hne]

/-! ### Many puts -/

theorem get?_foldl_put {t : Table key} {rs : List ρ} (hrs : (rs.map key).Nodup) (k : κ) :
    (rs.foldl put t).get? k = (rs.find? fun r => key r = k).or (t.get? k) := by
  induction rs generalizing t with
  | nil => rfl
  | cons r rs ih =>
    obtain ⟨hr, hrs⟩ := List.nodup_cons.mp hrs
    rw [List.foldl_cons, ih hrs, get?_put, List.find?_cons]
    by_cases hk : k = key r
    · subst hk
      have hnone : (rs.find? fun x => key x = key r) = none := by
        refine List.find?_eq_none.mpr fun x hx => ?_
        simpa using fun hkey => hr (List.mem_map.mpr ⟨x, hx, hkey⟩)
      simp [hnone]
    · simp [hk, Ne.symm hk]

theorem foldl_put_comm {t : Table key} {rs : List ρ} {r : ρ} (h : ∃ y ∈ t, key y = key r)
    (hne : ∀ x ∈ rs, key x ≠ key r) : (rs.foldl put t).put r = rs.foldl put (t.put r) := by
  induction rs generalizing t with
  | nil => rfl
  | cons x rs ih =>
    have hx := hne x List.mem_cons_self
    obtain ⟨y, hy, hyr⟩ := h
    have hy' : y ∈ t.put x := mem_put.mpr (.inr ⟨hy, fun hyx => hx (hyx.symm.trans hyr)⟩)
    rw [List.foldl_cons, ih ⟨y, hy', hyr⟩ fun z hz => hne z (List.mem_cons_of_mem x hz), List.foldl_cons,
      put_comm ⟨y, hy, hyr⟩ hx]

/-- Putting the rows of a table with one more put. -/
theorem foldl_put_put (t a : Table key) (r : ρ) : (a.put r).rows.foldl put t = (a.rows.foldl put t).put r := by
  by_cases h : ∃ x ∈ a, key x = key r
  · obtain ⟨x, hx, hkey⟩ := h
    obtain ⟨before, after, hrows⟩ := List.append_of_mem (mem_rows.mpr hx)
    have hnodup := a.nodup
    rw [hrows, List.map_append, List.map_cons] at hnodup
    obtain ⟨-, hafter, hapart⟩ := List.nodup_append.mp hnodup
    have hbefore : ∀ y ∈ before, key y ≠ key r := fun y hy hyr =>
      hapart (key y) (List.mem_map_of_mem hy) (key x) List.mem_cons_self (hyr.trans hkey.symm)
    have hafter : ∀ y ∈ after, key y ≠ key r := fun y hy hyr =>
      (List.nodup_cons.mp hafter).1 (List.mem_map.mpr ⟨y, hy, hyr.trans hkey.symm⟩)
    have hmap : ∀ rs : List ρ, (∀ y ∈ rs, key y ≠ key r) → (rs.map fun y => if key y = key r then r else y) = rs := by
      intro rs hrs
      exact (List.map_congr_left fun y hy => if_neg (hrs y hy)).trans (List.map_id _)
    rw [put_rows_of_mem hx hkey, hrows, List.map_append, List.map_cons, if_pos hkey, hmap _ hbefore, hmap _ hafter,
      List.foldl_append, List.foldl_append, List.foldl_cons, List.foldl_cons,
      foldl_put_comm ⟨x, mem_of_get? get?_put_self, hkey⟩ hafter, put_put_self hkey]
  · have hfresh : ∀ x ∈ a, key x ≠ key r := fun x hx hkey => h ⟨x, hx, hkey⟩
    rw [put_rows_of_fresh hfresh, List.foldl_append]
    rfl

/-- Putting the rows of a table into the empty one. -/
theorem foldl_put_rows (t : Table key) : t.rows.foldl put empty = t := by
  have hall : ∀ (rs : List ρ) (u : Table key), (rs.map key).Nodup → (∀ x ∈ u, ∀ r ∈ rs, key x ≠ key r) →
      (rs.foldl put u).rows = u.rows ++ rs := by
    intro rs
    induction rs with
    | nil => exact fun u _ _ => (List.append_nil _).symm
    | cons r rs ih =>
      intro u hrs hu
      obtain ⟨hr, hrs⟩ := List.nodup_cons.mp hrs
      have hrow := put_rows_of_fresh fun x hx => hu x hx r List.mem_cons_self
      rw [List.foldl_cons, ih (u.put r) hrs, hrow, List.append_assoc]
      · rfl
      · intro x hx y hy
        rcases mem_put.mp hx with rfl | ⟨hx, -⟩
        · exact fun hkey => hr (List.mem_map.mpr ⟨y, hy, hkey.symm⟩)
        · exact hu x hx y (List.mem_cons_of_mem r hy)
  exact ext ((hall t.rows empty t.nodup fun x hx => absurd hx (not_mem_empty x)).trans (List.nil_append _))

end Put

/-- The rows of `t'` are those of `t`, rewritten by `f`. -/
def Maps (f : ρ → ρ) (t t' : Table key) : Prop := ∀ r', r' ∈ t' ↔ ∃ r ∈ t, f r = r'

theorem Maps.refl (t : Table key) : Maps id t t := fun r' => by simp

theorem Maps.trans {f g : ρ → ρ} {t t' t'' : Table key} (h : Maps f t t') (h' : Maps g t' t'') : Maps (g ∘ f) t t'' := by
  intro r''
  rw [h' r'']
  constructor
  · rintro ⟨r', hr', rfl⟩
    obtain ⟨r, hr, rfl⟩ := (h r').mp hr'
    exact ⟨r, hr, rfl⟩
  · rintro ⟨r, hr, rfl⟩
    exact ⟨f r, (h (f r)).mpr ⟨r, hr, rfl⟩, rfl⟩

theorem Maps.get? [DecidableEq κ] {f : ρ → ρ} {t t' : Table key} (h : Maps f t t') (hf : ∀ r, key (f r) = key r) (k : κ) :
    t'.get? k = (t.get? k).map f := by
  cases hk : t.get? k with
  | none =>
    rw [Option.map_none, get?_eq_none]
    intro r' hr'
    obtain ⟨r, hr, rfl⟩ := (h r').mp hr'
    rw [hf r]
    exact get?_eq_none.mp hk r hr
  | some r =>
    obtain ⟨hr, rfl⟩ := get?_eq_some.mp hk
    rw [Option.map_some, get?_eq_some]
    exact ⟨(h (f r)).mpr ⟨r, hr, rfl⟩, hf r⟩

/-- How many rows an update or a delete with this condition reports. -/
def count (t : Table key) (p : ρ → Bool) : Nat := t.rows.countP p

/-! ## Delete -/

/-- Removes the rows that meet `p`. -/
def deleteWhere (t : Table key) (p : ρ → Bool) : Table key :=
  ⟨t.rows.filter fun r => !p r, t.nodup.sublist (List.filter_sublist.map _)⟩

theorem mem_deleteWhere {t : Table key} {p : ρ → Bool} {x : ρ} : x ∈ t.deleteWhere p ↔ x ∈ t ∧ p x = false := by
  rw [← mem_rows, deleteWhere, List.mem_filter, mem_rows, Bool.not_eq_true']

theorem deleteWhere_congr {t : Table key} {p q : ρ → Bool} (h : ∀ r ∈ t, p r = q r) : t.deleteWhere p = t.deleteWhere q :=
  ext (List.filter_congr fun r hr => by rw [h r hr])

theorem deleteWhere_of_false {t : Table key} {p : ρ → Bool} (h : ∀ r ∈ t, p r = false) : t.deleteWhere p = t :=
  ext (List.filter_eq_self.mpr fun r hr => by rw [h r hr]; rfl)

theorem deleteWhere_deleteWhere {t : Table key} {p q : ρ → Bool} :
    (t.deleteWhere p).deleteWhere q = t.deleteWhere fun r => p r || q r := by
  refine ext ((List.filter_filter ..).trans (List.filter_congr fun r _ => ?_))
  rw [Bool.not_or, Bool.and_comm]

/-- Frame: a delete of rows that have `q` leaves the rows without it alone. -/
theorem deleteWhere_frame {t : Table key} {p : ρ → Bool} (q : ρ → Prop) (hp : ∀ r, p r = true → q r) {x : ρ}
    (hx : ¬ q x) : x ∈ t.deleteWhere p ↔ x ∈ t := by
  rw [mem_deleteWhere]
  refine and_iff_left (Bool.eq_false_iff.mpr fun hpx => hx (hp x hpx))

theorem get?_deleteWhere [DecidableEq κ] {t : Table key} {p : ρ → Bool} (k : κ) :
    (t.deleteWhere p).get? k = (t.get? k).filter fun r => !p r := by
  apply Option.ext
  intro x
  rw [get?_eq_some, mem_deleteWhere, Option.filter_eq_some_iff, get?_eq_some, Bool.not_eq_true']
  tauto

/-! ## Select -/

/-- The rows that meet `p`, in table order. -/
def select (t : Table key) (p : ρ → Bool) : List ρ := t.rows.filter p

@[simp] theorem mem_select {t : Table key} {p : ρ → Bool} {x : ρ} : x ∈ t.select p ↔ x ∈ t ∧ p x = true := by
  rw [select, List.mem_filter, mem_rows]

/-- Whether some row meets `p`. -/
def any (t : Table key) (p : ρ → Bool) : Bool := t.rows.any p

@[simp] theorem any_eq_true {t : Table key} {p : ρ → Bool} : t.any p = true ↔ ∃ r ∈ t, p r = true := by
  rw [any, List.any_eq_true]; rfl

@[simp] theorem any_eq_false {t : Table key} {p : ρ → Bool} : t.any p = false ↔ ∀ r ∈ t, p r = false := by
  simp only [any, List.any_eq_false, mem_rows, Bool.not_eq_true]

/-! ## Counting -/

section Count

variable {t t' : Table key} {p q : ρ → Bool} {f : ρ → ρ} {hf : ∀ r, key (f r) = key r}

theorem count_eq_zero : t.count q = 0 ↔ ∀ r ∈ t, q r = false := by
  simp only [count, List.countP_eq_zero, mem_rows, Bool.not_eq_true]

theorem count_insert [DecidableEq κ] {r : ρ} (h : t.insert r = some t') :
    t'.count q = t.count q + if q r then 1 else 0 := by
  rw [count, insert_rows h, List.countP_append, List.countP_singleton]
  rfl

theorem count_deleteWhere_le : (t.deleteWhere p).count q ≤ t.count q := List.filter_sublist.countP_le

/-- An update that gives no row `q` leaves at most as many with it. -/
theorem count_updateWhere_le (h : ∀ r ∈ t, p r = true → q (f r) = true → q r = true) :
    (t.updateWhere p f hf).count q ≤ t.count q := by
  rw [count, updateWhere, List.countP_map]
  refine List.countP_mono_left fun r hr hq => ?_
  simp only [Function.comp] at hq
  split at hq
  · next hp => exact h r hr hp hq
  · exact hq

/-- The update of one row counts as that row does, before and after. -/
theorem count_updateWhere_key [DecidableEq κ] {r : ρ} (hr : r ∈ t) :
    (t.updateWhere (fun x => key x = key r) f hf).count q + (if q r then 1 else 0) =
      t.count q + if q (f r) then 1 else 0 := by
  obtain ⟨before, after, hrows⟩ := List.append_of_mem hr
  have hnodup := t.nodup
  rw [hrows, List.map_append, List.map_cons, List.nodup_append, List.nodup_cons] at hnodup
  obtain ⟨-, ⟨hafter, -⟩, hbefore⟩ := hnodup
  have hframe : ∀ l : List ρ, (∀ x ∈ l, key x ≠ key r) →
      (l.map fun x => if decide (key x = key r) = true then f x else x).countP q = l.countP q := by
    intro l hl
    rw [List.countP_map]
    refine List.countP_congr fun x hx => ?_
    simp [hl x hx]
  have hb : ∀ x ∈ before, key x ≠ key r := fun x hx =>
    hbefore (key x) (List.mem_map_of_mem hx) (key r) (List.mem_cons_self ..)
  have ha : ∀ x ∈ after, key x ≠ key r := fun x hx heq => hafter (heq ▸ List.mem_map_of_mem hx)
  simp only [count, updateWhere, hrows, List.map_append, List.map_cons, List.countP_append, List.countP_cons,
    hframe before hb, hframe after ha, decide_true, if_true]
  omega

/-- The update of a key that no row has. -/
theorem updateWhere_of_none [DecidableEq κ] {k : κ} (h : t.get? k = none) :
    t.updateWhere (fun x => key x = k) f hf = t := by
  refine ext ?_
  show (t.rows.map fun r => if decide (key r = k) = true then f r else r) = t.rows
  have hid : (t.rows.map fun r => if decide (key r = k) = true then f r else r) = t.rows.map id :=
    List.map_congr_left fun r hr => by simp [get?_eq_none.mp h r hr]
  rw [hid, List.map_id]

end Count

/-! ## Sums -/

section Sum

variable {M : Type*} [AddCommMonoid M] {t t' : Table key} {p : ρ → Bool} {f g : ρ → M} {u : ρ → ρ}
  {hu : ∀ r, key (u r) = key r}

/-- What the rows of a table come to. -/
def sum (t : Table key) (f : ρ → M) : M := (t.rows.map f).sum

@[simp] theorem sum_empty : (empty : Table key).sum f = 0 := rfl

theorem sum_insert [DecidableEq κ] {r : ρ} (h : t.insert r = some t') : t'.sum f = t.sum f + f r := by
  rw [sum, insert_rows h, List.map_append, List.sum_append, List.map_singleton, List.sum_singleton]
  rfl

/-- The update of one row counts as that row does, before and after. -/
theorem sum_updateWhere_key [DecidableEq κ] {r : ρ} (hr : r ∈ t) :
    (t.updateWhere (fun x => key x = key r) u hu).sum f + f r = t.sum f + f (u r) := by
  obtain ⟨before, after, hrows⟩ := List.append_of_mem hr
  have hnodup := t.nodup
  rw [hrows, List.map_append, List.map_cons, List.nodup_append, List.nodup_cons] at hnodup
  obtain ⟨-, ⟨hafter, -⟩, hbefore⟩ := hnodup
  have hframe : ∀ l : List ρ, (∀ x ∈ l, key x ≠ key r) →
      (l.map fun x => if decide (key x = key r) = true then u x else x) = l := by
    intro l hl
    refine (List.map_congr_left fun x hx => ?_).trans (List.map_id l)
    simp [hl x hx]
  have hb : ∀ x ∈ before, key x ≠ key r := fun x hx =>
    hbefore (key x) (List.mem_map_of_mem hx) (key r) (List.mem_cons_self ..)
  have ha : ∀ x ∈ after, key x ≠ key r := fun x hx heq => hafter (heq ▸ List.mem_map_of_mem hx)
  simp only [sum, updateWhere, hrows, List.map_append, List.map_cons, hframe before hb, hframe after ha, decide_true,
    if_true, List.sum_append, List.sum_cons]
  abel

variable [PartialOrder M] [IsOrderedAddMonoid M]

theorem sum_mono (h : ∀ r ∈ t, f r ≤ g r) : t.sum f ≤ t.sum g := List.sum_le_sum h

theorem sum_deleteWhere_le (h : ∀ r ∈ t, 0 ≤ f r) : (t.deleteWhere p).sum f ≤ t.sum f :=
  (List.filter_sublist.map f).sum_le_sum fun _ hx => by
    obtain ⟨r, hr, rfl⟩ := List.mem_map.mp hx
    exact h r hr

end Sum

end Table

/-- Counting in a list one of whose entries is replaced. -/
theorem countP_set {α : Type u} {l : List α} {k : Nat} {a : α} (hk : l[k]? = some a) (b : α) (p : α → Bool) :
    (l.set k b).countP p + (if p a then 1 else 0) = l.countP p + (if p b then 1 else 0) := by
  obtain ⟨hlt, hget⟩ := List.getElem?_eq_some_iff.mp hk
  rw [List.countP_set hlt, hget]
  have hpos : p a = true → 0 < l.countP p := fun hp => List.countP_pos_iff.mpr ⟨a, List.mem_of_getElem? hk, hp⟩
  cases hp : p a with
  | true => have := hpos hp; simp; omega
  | false => simp

/-- Summing over a list one of whose entries is replaced. -/
theorem sum_map_set {α : Type u} {l : List α} {k : Nat} {a : α} (hk : l[k]? = some a) (b : α) (f : α → Nat) :
    ((l.set k b).map f).sum + f a = (l.map f).sum + f b := by
  obtain ⟨hlt, hget⟩ := List.getElem?_eq_some_iff.mp hk
  induction l generalizing k with
  | nil => cases hlt
  | cons x l ih =>
    cases k with
    | zero =>
      obtain rfl : x = a := hget
      simp only [List.set_cons_zero, List.map_cons, List.sum_cons]
      omega
    | succ k =>
      have := ih (k := k) hk (Nat.lt_of_succ_lt_succ hlt) hget
      simp only [List.set_cons_succ, List.map_cons, List.sum_cons]
      omega

end Lib
