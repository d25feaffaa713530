/-
Lists of entries under keys, and the merge of one's own list with the one that others have
written meanwhile.

One remembers which entries were stored the last time one looked. An entry that is
remembered, and that one has no longer, is deleted; one that is remembered, and that the
others have no longer, is gone; an entry that the others have changed stays as theirs; the
rest are one's own.
-/
import Mathlib.Data.List.Basic

namespace Lib

universe u v

variable {α : Type u} {κ : Type v} [DecidableEq κ]

def hasKey (key : α → κ) (k : κ) (l : List α) : Bool := l.any fun a => key a = k

/-- The entry takes the place of the one with its key, or goes to the end. -/
def setByKey (key : α → κ) (a : α) (l : List α) : List α :=
  if hasKey key (key a) l then l.map fun b => if key b = key a then a else b else l ++ [a]

/-- The merged entries, and one's own that the others have removed. -/
structure Merged (α : Type u) where
  entries : List α
  gone : List α

def mergeEntry (key : α → κ) (known : κ → Bool) (changed : α → Bool) (m : Merged α) (mine : α) : Merged α :=
  if known (key mine) && !hasKey key (key mine) m.entries then { m with gone := m.gone ++ [mine] }
  else if (m.entries.find? fun a => key a = key mine).any changed then m
  else { m with entries := setByKey key mine m.entries }

def merge (key : α → κ) (known : κ → Bool) (changed : α → Bool) (mine theirs : List α) : Merged α :=
  mine.foldl (mergeEntry key known changed) ⟨theirs.filter fun a => !known (key a) || hasKey key (key a) mine, []⟩

variable {key : α → κ} {known : κ → Bool} {changed : α → Bool} {mine theirs : List α} {m : Merged α} {a b : α} {k : κ}

theorem hasKey_eq_true {l : List α} : hasKey key k l = true ↔ ∃ a ∈ l, key a = k := by
  simp [hasKey]

theorem hasKey_eq_false {l : List α} : hasKey key k l = false ↔ ∀ a ∈ l, key a ≠ k := by
  simp [hasKey]

@[simp] theorem hasKey_nil : hasKey key k [] = false := rfl

@[simp] theorem hasKey_append {l l' : List α} : hasKey key k (l ++ l') = (hasKey key k l || hasKey key k l') := by
  simp [hasKey]

theorem hasKey_perm {l l' : List α} (h : l.Perm l') : hasKey key k l = hasKey key k l' := by
  rw [Bool.eq_iff_iff, hasKey_eq_true, hasKey_eq_true]
  exact ⟨fun ⟨a, ha, hk⟩ => ⟨a, h.mem_iff.mp ha, hk⟩, fun ⟨a, ha, hk⟩ => ⟨a, h.mem_iff.mpr ha, hk⟩⟩

theorem hasKey_filter_ne {l : List α} {k' : κ} :
    hasKey key k (l.filter fun a => key a ≠ k') = (hasKey key k l && decide (k ≠ k')) := by
  rw [Bool.eq_iff_iff, Bool.and_eq_true, hasKey_eq_true, hasKey_eq_true, decide_eq_true_eq]
  constructor
  · intro ⟨a, ha, hk⟩
    obtain ⟨ha, hne⟩ := List.mem_filter.mp ha
    exact ⟨⟨a, ha, hk⟩, hk ▸ of_decide_eq_true hne⟩
  · intro ⟨⟨a, ha, hk⟩, hne⟩
    exact ⟨a, List.mem_filter.mpr ⟨ha, decide_eq_true (hk ▸ hne)⟩, hk⟩

theorem hasKey_setByKey {l : List α} : hasKey key k (setByKey key a l) = (hasKey key k l || decide (key a = k)) := by
  unfold setByKey
  split
  · next hhas =>
    obtain ⟨b, hb, hkey⟩ := hasKey_eq_true.mp hhas
    rw [Bool.eq_iff_iff, Bool.or_eq_true, hasKey_eq_true, hasKey_eq_true, decide_eq_true_eq]
    constructor
    · rintro ⟨c, hc, hk⟩
      obtain ⟨d, hd, rfl⟩ := List.mem_map.mp hc
      split at hk
      · exact .inr hk
      · exact .inl ⟨d, hd, hk⟩
    · rintro (⟨c, hc, hk⟩ | hk)
      · by_cases hca : key c = key a
        · exact ⟨a, List.mem_map.mpr ⟨c, hc, if_pos hca⟩, hca.symm.trans hk⟩
        · exact ⟨c, List.mem_map.mpr ⟨c, hc, if_neg hca⟩, hk⟩
      · exact ⟨a, List.mem_map.mpr ⟨b, hb, if_pos hkey⟩, hk⟩
  · simp [hasKey]

/-- An entry of one's own adds its key, unless it is remembered. -/
theorem hasKey_mergeEntry : hasKey key k (mergeEntry key known changed m a).entries =
    (hasKey key k m.entries || decide (key a = k) && !known k) := by
  unfold mergeEntry
  by_cases hak : key a = k
  · subst hak
    split
    · next hgone =>
      simp only [Bool.and_eq_true, Bool.not_eq_true'] at hgone
      simp [hgone.1, hgone.2]
    · next hstays =>
      have hkey : known (key a) = true → hasKey key (key a) m.entries = true := by simpa using hstays
      split
      · next hchanged =>
        have hhas : hasKey key (key a) m.entries = true := by
          cases hfind : m.entries.find? fun b => key b = key a with
          | none => simp [hfind] at hchanged
          | some b => exact hasKey_eq_true.mpr ⟨b, List.mem_of_find?_eq_some hfind, by simpa using List.find?_some hfind⟩
        simp [hhas]
      · rw [hasKey_setByKey]
        cases hkn : known (key a) with
        | true => simp [hkey hkn]
        | false => simp
  · split
    · simp [hak]
    · split
      · simp [hak]
      · simp [hasKey_setByKey, hak]

/-- **The keys of a merge**: what the others have and one has not deleted, and what is new. -/
theorem hasKey_merge : hasKey key k (merge key known changed mine theirs).entries =
    (hasKey key k theirs && (!known k || hasKey key k mine) || hasKey key k mine && !known k) := by
  have hfold : ∀ (l : List α) (m : Merged α), hasKey key k (l.foldl (mergeEntry key known changed) m).entries =
      (hasKey key k m.entries || hasKey key k l && !known k) := by
    intro l
    induction l with
    | nil => simp
    | cons a l ih =>
      intro m
      rw [List.foldl_cons, ih, hasKey_mergeEntry]
      simp only [hasKey, List.any_cons]
      cases known k <;> simp [Bool.or_assoc]
  have hfilter : hasKey key k (theirs.filter fun a => !known (key a) || hasKey key (key a) mine) =
      (hasKey key k theirs && (!known k || hasKey key k mine)) := by
    rw [Bool.eq_iff_iff, Bool.and_eq_true, hasKey_eq_true, hasKey_eq_true]
    constructor
    · rintro ⟨a, ha, rfl⟩
      exact ⟨⟨a, (List.mem_filter.mp ha).1, rfl⟩, (List.mem_filter.mp ha).2⟩
    · rintro ⟨⟨a, ha, rfl⟩, hk⟩
      exact ⟨a, List.mem_filter.mpr ⟨ha, hk⟩, rfl⟩
  rw [merge, hfold, hfilter]

/-! ## The entries of a merge -/

variable {x : α}

theorem mem_setByKey {l : List α} (h : x ∈ setByKey key a l) : x = a ∨ x ∈ l := by
  unfold setByKey at h
  split at h
  · obtain ⟨b, hb, rfl⟩ := List.mem_map.mp h
    split
    · exact .inl rfl
    · exact .inr hb
  · rcases List.mem_append.mp h with hl | ha
    · exact .inr hl
    · exact .inl (List.mem_singleton.mp ha)

/-- **An entry of a merge** is one of the others', or one's own: then it is new, or the others have an
entry in its place that they have not changed. -/
theorem mem_merge (h : x ∈ (merge key known changed mine theirs).entries) :
    x ∈ theirs ∨ x ∈ mine ∧ (known (key x) = true → ∃ b ∈ theirs, key b = key x ∧ changed b = false) := by
  have hfold : ∀ (l : List α) (m : Merged α), (∀ a ∈ l, a ∈ mine) →
      (∀ y ∈ m.entries, y ∈ theirs ∨ y ∈ mine ∧ (known (key y) = true → ∃ b ∈ theirs, key b = key y ∧ changed b = false)) →
      ∀ y ∈ (l.foldl (mergeEntry key known changed) m).entries,
        y ∈ theirs ∨ y ∈ mine ∧ (known (key y) = true → ∃ b ∈ theirs, key b = key y ∧ changed b = false) := by
    intro l
    induction l with
    | nil => exact fun m _ hm => hm
    | cons a l ih =>
      intro m hl hm
      refine ih _ (fun b hb => hl b (List.mem_cons_of_mem a hb)) fun y hy => ?_
      unfold mergeEntry at hy
      split at hy
      · exact hm y hy
      · next hstays =>
        split at hy
        · exact hm y hy
        · next hunchanged =>
          rcases mem_setByKey hy with rfl | hy
          · refine .inr ⟨hl y List.mem_cons_self, fun hknown => ?_⟩
            have hhas : hasKey key (key y) m.entries = true := by simpa [hknown] using hstays
            obtain ⟨b, hb, hkey⟩ := hasKey_eq_true.mp hhas
            cases hfind : m.entries.find? fun a => key a = key y with
            | none => exact absurd (decide_eq_true hkey) (by simpa using List.find?_eq_none.mp hfind b hb)
            | some z =>
              have hz : key z = key y := by simpa using List.find?_some hfind
              rw [hfind, Option.any_some, Bool.not_eq_true] at hunchanged
              rcases hm z (List.mem_of_find?_eq_some hfind) with htheirs | ⟨-, hown⟩
              · exact ⟨z, htheirs, hz, hunchanged⟩
              · obtain ⟨b, hb, hbz, hchanged⟩ := hown (hz ▸ hknown)
                exact ⟨b, hb, hbz.trans hz, hchanged⟩
          · exact hm y hy
  exact hfold mine _ (fun a ha => ha) (fun y hy => .inl (List.mem_filter.mp hy).1) x h

theorem nodup_setByKey {l : List α} (h : (l.map key).Nodup) : ((setByKey key a l).map key).Nodup := by
  unfold setByKey
  split
  · rw [List.map_map]
    have hkeys : (key ∘ fun b => if key b = key a then a else b) = key := funext fun b => by
      simp only [Function.comp]
      split
      · next hb => exact hb.symm
      · rfl
    rwa [hkeys]
  · next hno =>
    rw [List.map_append, List.map_singleton, List.nodup_append]
    refine ⟨h, by simp, fun k hk k' hk' heq => hno ?_⟩
    obtain ⟨b, hb, rfl⟩ := List.mem_map.mp hk
    exact hasKey_eq_true.mpr ⟨b, hb, heq.trans (List.mem_singleton.mp hk')⟩

/-- The keys of a merge are distinct. -/
theorem nodup_merge (h : (theirs.map key).Nodup) : ((merge key known changed mine theirs).entries.map key).Nodup := by
  have hfold : ∀ (l : List α) (m : Merged α), (m.entries.map key).Nodup →
      ((l.foldl (mergeEntry key known changed) m).entries.map key).Nodup := by
    intro l
    induction l with
    | nil => exact fun m hm => hm
    | cons a l ih =>
      intro m hm
      refine ih _ ?_
      unfold mergeEntry
      split
      · exact hm
      · split
        · exact hm
        · exact nodup_setByKey hm
  exact hfold mine _ (h.sublist (List.filter_sublist.map key))

theorem mem_setByKey_of_ne {l : List α} (hx : key x ≠ key a) : x ∈ setByKey key a l ↔ x ∈ l := by
  unfold setByKey
  split
  · rw [List.mem_map]
    constructor
    · rintro ⟨b, hb, rfl⟩
      split at hx
      · exact absurd rfl hx
      · next hba => rwa [if_neg hba]
    · exact fun h => ⟨x, h, if_neg hx⟩
  · rw [List.mem_append, List.mem_singleton]
    exact ⟨fun h => h.resolve_right fun heq => hx (heq ▸ rfl), .inl⟩

/-- Entries of other keys leave an entry alone. -/
theorem mem_foldl_mergeEntry {l : List α} (h : ∀ a ∈ l, key a ≠ key x) :
    x ∈ (l.foldl (mergeEntry key known changed) m).entries ↔ x ∈ m.entries := by
  induction l generalizing m with
  | nil => rfl
  | cons a l ih =>
    rw [List.foldl_cons, ih fun b hb => h b (List.mem_cons_of_mem a hb)]
    unfold mergeEntry
    split
    · rfl
    · split
      · rfl
      · exact mem_setByKey_of_ne (h a List.mem_cons_self).symm

/-- **One's own entry**, when the others have not changed theirs: it is the merge's. -/
theorem eq_of_mem_merge (hmine : (mine.map key).Nodup) (hb : b ∈ mine)
    (hthere : known (key b) = true → hasKey key (key b) theirs = true) (hunchanged : ∀ a ∈ theirs, key a = key b → changed a = false)
    (h : x ∈ (merge key known changed mine theirs).entries) (hx : key x = key b) : x = b := by
  obtain ⟨l, l', hsplit⟩ := List.append_of_mem hb
  have hothers : (∀ a ∈ l, key a ≠ key b) ∧ ∀ a ∈ l', key a ≠ key b := by
    rw [hsplit, List.map_append, List.map_cons, List.nodup_append, List.nodup_cons] at hmine
    exact ⟨fun a ha heq => hmine.2.2 _ (List.mem_map_of_mem ha) _ List.mem_cons_self heq,
      fun a ha heq => hmine.2.1.1 (heq ▸ List.mem_map_of_mem ha)⟩
  unfold merge at h
  -- Before one's own entry, those of its key are the others'.
  generalize hstart : (⟨theirs.filter fun a => !known (key a) || hasKey key (key a) mine, []⟩ : Merged α) = m at h
  have hentries : ∀ a, key a = key b → (a ∈ m.entries ↔ a ∈ theirs) := fun a ha => by
    have hkey : hasKey key (key a) mine = true := hasKey_eq_true.mpr ⟨b, hb, ha.symm⟩
    rw [← hstart, List.mem_filter]
    simp [hkey]
  rw [hsplit, List.foldl_append, List.foldl_cons, mem_foldl_mergeEntry fun a ha => hx ▸ hothers.2 a ha] at h
  have hbefore : ∀ a, key a = key b → (a ∈ (l.foldl (mergeEntry key known changed) m).entries ↔ a ∈ theirs) := fun a ha => by
    rw [mem_foldl_mergeEntry fun c hc => ha ▸ hothers.1 c hc, hentries a ha]
  generalize l.foldl (mergeEntry key known changed) m = m' at h hbefore
  unfold mergeEntry at h
  split at h
  · next hgone =>
    rw [Bool.and_eq_true, Bool.not_eq_true'] at hgone
    obtain ⟨a, ha, hkey⟩ := hasKey_eq_true.mp (hthere hgone.1)
    exact absurd hkey (hasKey_eq_false.mp hgone.2 a ((hbefore a hkey).mpr ha))
  · split at h
    · next hchanged =>
      cases hfind : m'.entries.find? fun a => key a = key b with
      | none => simp [hfind] at hchanged
      | some a =>
        have ha : key a = key b := by simpa using List.find?_some hfind
        rw [hfind, Option.any_some, hunchanged a ((hbefore a ha).mp (List.mem_of_find?_eq_some hfind)) ha] at hchanged
        cases hchanged
    · unfold setByKey at h
      split at h
      · obtain ⟨a, -, rfl⟩ := List.mem_map.mp h
        split
        · rfl
        · next hne =>
          rw [if_neg hne] at hx
          exact absurd hx hne
      · next hno =>
        rcases List.mem_append.mp h with hold | hnew
        · exact absurd (hasKey_eq_true.mpr ⟨x, hold, hx⟩) hno
        · exact List.mem_singleton.mp hnew

end Lib
