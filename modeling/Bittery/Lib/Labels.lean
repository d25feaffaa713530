/-
Names written as labels with a separator between them, the widest label last.

Some names are public: nobody owns them. The site of a name is its shortest ending that is not public, and
names of one site are interchangeable.
-/
import Mathlib.Data.List.Infix
import Mathlib.Data.List.Lemmas

namespace Lib.Labels

variable {α : Type*} {sep : α}

/-! ## Names above names -/

/-- The name `upper` is what stands after one of the separators of `lower`. -/
def Above (sep : α) (upper lower : List α) : Prop := sep :: upper <:+ lower

instance [DecidableEq α] (upper lower : List α) : Decidable (Above sep upper lower) :=
  inferInstanceAs (Decidable (_ <:+ _))

theorem above_append (lead upper : List α) : Above sep upper (lead ++ sep :: upper) := ⟨lead, rfl⟩

theorem Above.length_lt {upper lower : List α} (h : Above sep upper lower) : upper.length < lower.length := by
  have hle := h.length_le
  rw [List.length_cons] at hle
  omega

theorem Above.ne {upper lower : List α} (h : Above sep upper lower) : upper ≠ lower := fun heq =>
  absurd h.length_lt (by rw [heq]; exact lt_irrefl _)

theorem intercalate_append_cons (lead : List (List α)) (label : List α) (rest : List (List α)) (hlead : lead ≠ []) :
    [sep].intercalate (lead ++ label :: rest) = [sep].intercalate lead ++ sep :: [sep].intercalate (label :: rest) := by
  induction lead with
  | nil => exact absurd rfl hlead
  | cons first lead ih =>
    cases lead with
    | nil => simp [List.intercalate_cons_cons]
    | cons second lead =>
      have := ih (List.cons_ne_nil _ _)
      simp only [List.cons_append, List.intercalate_cons_cons, List.append_assoc] at this ⊢
      rw [this]

variable [DecidableEq α]

theorem splitOn_injective (sep : α) : Function.Injective fun name : List α => name.splitOn sep :=
  Function.LeftInverse.injective (g := [sep].intercalate) fun _ => List.intercalate_splitOn sep

theorem notMem_of_mem_splitOn {name label : List α} (h : label ∈ name.splitOn sep) : sep ∉ label := by
  induction name generalizing label with
  | nil => simp_all
  | cons first name ih =>
    rw [List.splitOn_cons_eq_if_modifyHead] at h
    split at h
    · rcases List.mem_cons.1 h with rfl | hmem
      · exact List.not_mem_nil
      · exact ih hmem
    · rename_i hfirst
      obtain ⟨head, rest, hsplit⟩ := List.exists_cons_of_ne_nil (List.splitOn_ne_nil sep name)
      rw [hsplit, List.modifyHead_cons, List.mem_cons] at h
      rcases h with rfl | hmem
      · have hhead : sep ∉ head := ih (by rw [hsplit]; exact List.mem_cons_self)
        have hne : sep ≠ first := fun heq => hfirst (by simp [heq])
        exact fun hmem => (List.mem_cons.1 hmem).elim hne hhead
      · exact ih (by rw [hsplit]; exact List.mem_cons_of_mem _ hmem)

/-- The labels of an ending are the ending of the labels. -/
theorem splitOn_intercalate_drop (name : List α) {n : Nat} (hn : n < (name.splitOn sep).length) :
    ([sep].intercalate ((name.splitOn sep).drop n)).splitOn sep = (name.splitOn sep).drop n := by
  refine List.splitOn_intercalate sep (fun label hlabel => ?_) ?_
  · exact notMem_of_mem_splitOn (List.mem_of_mem_drop hlabel)
  · exact fun hnil => absurd (List.drop_eq_nil_iff.1 hnil) (by omega)

/-- **Being above is being a proper ending**, label by label. -/
theorem above_iff {upper lower : List α} :
    Above sep upper lower ↔ upper.splitOn sep <:+ lower.splitOn sep ∧ upper ≠ lower := by
  constructor
  · rintro ⟨lead, rfl⟩
    exact ⟨⟨lead.splitOn sep, (List.splitOn_append_cons_self lead upper).symm⟩, (above_append lead upper).ne⟩
  · rintro ⟨⟨lead, hlead⟩, hne⟩
    have hlead' : lead ≠ [] := by
      rintro rfl
      exact hne (splitOn_injective sep hlead)
    obtain ⟨label, rest, hupper⟩ := List.exists_cons_of_ne_nil (List.splitOn_ne_nil sep upper)
    have hlower : [sep].intercalate (lower.splitOn sep) = lower := List.intercalate_splitOn sep
    refine ⟨[sep].intercalate lead, ?_⟩
    rw [← hlower, ← hlead, hupper, intercalate_append_cons _ _ _ hlead', ← hupper, List.intercalate_splitOn]

/-! ## Sites -/

variable {β : Type*} {Pub : List β → Prop} {name name' site site' : List β}

/-- The shortest ending of the name that is not public. -/
def IsSite (Pub : List β → Prop) (name site : List β) : Prop :=
  site <:+ name ∧ ¬ Pub site ∧ ∀ ending, ending <:+ name → ending.length < site.length → Pub ending

theorem IsSite.unique (h : IsSite Pub name site) (h' : IsSite Pub name site') : site = site' := by
  obtain ⟨hend, hpub, hshort⟩ := h
  obtain ⟨hend', hpub', hshort'⟩ := h'
  have hlength : site.length = site'.length := by
    rcases lt_trichotomy site.length site'.length with hlt | heq | hgt
    · exact absurd (hshort' site hend hlt) hpub
    · exact heq
    · exact absurd (hshort site' hend' hgt) hpub'
  exact (List.suffix_of_suffix_length_le hend hend' hlength.le).eq_of_length hlength

/-- A longer name has the site of its ending. -/
theorem IsSite.of_suffix (h : IsSite Pub name site) (hname : name <:+ name') : IsSite Pub name' site := by
  obtain ⟨hend, hpub, hshort⟩ := h
  refine ⟨hend.trans hname, hpub, fun ending hending hlt => hshort ending ?_ hlt⟩
  exact List.suffix_of_suffix_length_le hending hname (hlt.le.trans hend.length_le)

/-- The names nobody owns are closed upwards: an ending of one is one. -/
def ClosedUpwards (Pub : List β → Prop) : Prop := ∀ name ending, Pub name → ending <:+ name → Pub ending

/-- Where an ending of the length is public, or no longer one is, the site is one label more. -/
theorem isSite_drop (hpub : ClosedUpwards Pub) {n : Nat} (hn : n < name.length)
    (hpublic : Pub (name.drop (name.length - n))) (hnot : ¬ Pub (name.drop (name.length - (n + 1)))) :
    IsSite Pub name (name.drop (name.length - (n + 1))) := by
  refine ⟨List.drop_suffix _ _, hnot, fun ending hending hlt => hpub _ _ hpublic ?_⟩
  refine List.suffix_of_suffix_length_le hending (List.drop_suffix _ _) ?_
  simp only [List.length_drop] at hlt ⊢
  omega

end Lib.Labels
