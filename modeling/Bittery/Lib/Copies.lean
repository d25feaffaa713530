/-
Two copies of a versioned record, and calls that write both, one after the other.

Some calls write the back copy first, others the front copy first; a copy that is strictly
newer is left as it is. A removal takes the record out of the front copy first. Between its
two writes a call is pending. `Pairs` says what the pending calls find, `Backed` that nothing
in front is newer than what is in the back or on its way there, and `Shown` that what is in
the back is in front, on its way there, or outdated. Each operation keeps all three
(`Preserves`), provided that the pending calls write pairwise different versions and none of
them is a removal beside another. When no call is pending the copies are equal.
-/
import Mathlib.Data.Set.Insert

namespace Lib

universe u

/-- The copies, the records of the calls that still have to write one of them, and whether a
removal still has to reach the back. -/
@[ext] structure Copies (ρ : Type u) where
  front : Option ρ
  back : Option ρ
  toFront : Set ρ
  toBack : Set ρ
  removing : Prop

namespace Copies

variable {ρ : Type u} {version : ρ → Nat} {c d : Copies ρ} {x : ρ}

/-- A copy is strictly newer than a record. -/
def newer (version : ρ → Nat) (o : Option ρ) (x : ρ) : Bool := o.any fun y => version x < version y

/-- A copy is this record or a newer one. -/
def Has (version : ρ → Nat) (o : Option ρ) (x : ρ) : Prop :=
  ∃ y, o = some y ∧ version x ≤ version y ∧ (version y = version x → y = x)

/-- A pending call writes a version. -/
def pending (c : Copies ρ) : Set ρ := c.toFront ∪ c.toBack

structure Pairs (version : ρ → Nat) (c : Copies ρ) : Prop where
  back : ∀ x ∈ c.toFront, Has version c.back x
  front : ∀ x ∈ c.toBack, Has version c.front x
  agree : ∀ x ∈ c.pending, ∀ y ∈ c.pending, version x = version y → x = y
  removed : c.removing → c.front = none ∧ c.pending = ∅

def Backed (version : ρ → Nat) (c : Copies ρ) : Prop :=
  ∀ x, c.front = some x → (∃ y, c.back = some y ∧ version x ≤ version y) ∨ x ∈ c.toBack

def Shown (version : ρ → Nat) (c : Copies ρ) : Prop :=
  ∀ y, c.back = some y → c.front = some y ∨ (∃ x, c.front = some x ∧ version y < version x) ∨ y ∈ c.toFront ∨ c.removing

/-- What every operation does for the three. -/
structure Preserves (version : ρ → Nat) (c d : Copies ρ) : Prop where
  pairs : c.Pairs version → d.Pairs version
  backed : c.Pairs version → c.Backed version → d.Backed version
  shown : c.Pairs version → c.Shown version → d.Shown version

/-- A call is no longer pending; others for the same record may be. -/
structure Drops (x : ρ) (p q : Set ρ) : Prop where
  sub : q ⊆ p
  rest : ∀ y ∈ p, y ≠ x → y ∈ q

theorem Preserves.refl : Preserves version c c := ⟨id, fun _ => id, fun _ => id⟩

theorem newer_eq_false {o : Option ρ} : newer version o x = false ↔ ∀ y, o = some y → version y ≤ version x := by
  cases o <;> simp [newer]

theorem newer_eq_true {o : Option ρ} : newer version o x = true ↔ ∃ y, o = some y ∧ version x < version y := by
  cases o <;> simp [newer]

theorem has_self : Has version (some x) x := ⟨x, rfl, Nat.le_refl _, fun _ => rfl⟩

/-- A copy that is overwritten still has what a pending call has written to it. -/
theorem Has.overwritten {o : Option ρ} {z : ρ} (h : Has version o z) (hn : newer version o x = false)
    (hagree : version x = version z → x = z) : Has version (some x) z := by
  obtain ⟨y, rfl, hle, -⟩ := h
  have := newer_eq_false.mp hn y rfl
  exact ⟨x, rfl, by omega, hagree⟩

/-- Nothing is pending. -/
theorem Pairs.of_idle (hidle : c.pending = ∅) (hr : ¬ c.removing) : c.Pairs version where
  back x hx := absurd (show x ∈ c.pending from .inl hx) (by rw [hidle]; exact Set.notMem_empty x)
  front x hx := absurd (show x ∈ c.pending from .inr hx) (by rw [hidle]; exact Set.notMem_empty x)
  agree x hx := absurd hx (by rw [hidle]; exact Set.notMem_empty x)
  removed h := absurd h hr

/-- A record is put into a back copy that is empty. -/
theorem Pairs.fill (h : c.Pairs version) (hnone : c.back = none) : Pairs version { c with back := some x } where
  back y hy := by
    obtain ⟨z, hz, -⟩ := h.back y hy
    rw [hnone] at hz; cases hz
  front := h.front
  agree := h.agree
  removed := h.removed

/-- The front copy is replaced by the back copy, while nothing is on its way there. -/
theorem Pairs.replaced (h : c.Pairs version) (hback : c.toBack = ∅) (hr : ¬ c.removing) :
    Pairs version { c with front := c.back } where
  back := h.back
  front x hx := absurd (show x ∈ c.toBack from hx) (by rw [hback]; exact Set.notMem_empty x)
  agree := h.agree
  removed h := absurd h hr

theorem backed_replaced : Backed version { c with front := c.back } := fun x hx => .inl ⟨x, hx, Nat.le_refl _⟩

theorem shown_replaced : Shown version { c with front := c.back } := fun _ hy => .inl hy

/-- **The copies agree** when nothing is pending. -/
theorem eq_of_settled (hb : c.Backed version) (hs : c.Shown version) (hfront : c.toFront = ∅) (hback : c.toBack = ∅)
    (hr : ¬ c.removing) : c.front = c.back := by
  have hbacked : ∀ x, c.front = some x → ∃ y, c.back = some y ∧ version x ≤ version y := by
    intro x hx
    rcases hb x hx with h | h
    · exact h
    · rw [hback] at h; exact absurd h (Set.notMem_empty x)
  cases hc : c.back with
  | none =>
    cases hf : c.front with
    | none => rfl
    | some x =>
      obtain ⟨y, hy, -⟩ := hbacked x hf
      rw [hc] at hy; cases hy
  | some y =>
    rcases hs y hc with h | ⟨x, hx, hlt⟩ | h | h
    · exact h
    · obtain ⟨z, hz, hle⟩ := hbacked x hx
      rw [hc] at hz; cases hz
      omega
    · rw [hfront] at h; exact absurd h (Set.notMem_empty y)
    · exact absurd h hr

/-- The back copy is written, the front copy is to follow. -/
theorem preserves_writeBack (hnew : newer version c.back x = false) (hr : ¬ c.removing)
    (hapart : ∀ y ∈ c.pending, version y ≠ version x) :
    Preserves version c { c with back := some x, toFront := insert x c.toFront } where
  pairs h := by
    refine ⟨fun z hz => ?_, h.front, fun y hy z hz hv => ?_, fun h => absurd h hr⟩
    · rcases hz with rfl | hz
      · exact has_self
      · exact (h.back z hz).overwritten hnew fun hv => absurd hv.symm (hapart z (.inl hz))
    · have hp : ∀ w ∈ pending { c with back := some x, toFront := insert x c.toFront }, w = x ∨ w ∈ c.pending := by
        rintro w ((rfl | hw) | hw)
        · exact .inl rfl
        · exact .inr (.inl hw)
        · exact .inr (.inr hw)
      rcases hp y hy with hyx | hyc <;> rcases hp z hz with hzx | hzc
      · rw [hyx, hzx]
      · exact absurd hv.symm (hyx ▸ hapart z hzc)
      · exact absurd hv (hzx ▸ hapart y hyc)
      · exact h.agree y hyc z hzc hv
  backed _ h z hz := by
    rcases h z hz with ⟨y, hy, hle⟩ | hz
    · have := newer_eq_false.mp hnew y hy
      exact .inl ⟨x, rfl, by omega⟩
    · exact .inr hz
  shown _ _ y hy := .inr (.inr (.inl (.inl (Option.some.inj hy).symm)))

/-- The front copy follows, unless it is newer. -/
theorem preserves_settleFront {p : Set ρ} (hx : x ∈ c.toFront) (hp : Drops x c.toFront p) :
    Preserves version c { c with front := if newer version c.front x then c.front else some x, toFront := p } where
  pairs h := by
    have hsub : ∀ w ∈ p ∪ c.toBack, w ∈ c.pending := fun w hw => hw.imp (fun hw => hp.sub hw) id
    refine ⟨fun z hz => h.back z (hp.sub hz), fun z hz => ?_, fun y hy z hz => h.agree y (hsub y hy) z (hsub z hz),
      fun hr => ?_⟩
    · show Has version (if newer version c.front x then c.front else some x) z
      split
      · exact h.front z hz
      · next hn => exact (h.front z hz).overwritten (by simpa using hn) (h.agree x (.inl hx) z (.inr hz))
    · have hempty := (h.removed hr).2
      exact absurd (show x ∈ c.pending from .inl hx) (by rw [hempty]; exact Set.notMem_empty x)
  backed h hb z hz := by
    have hz : (if newer version c.front x then c.front else some x) = some z := hz
    split at hz
    · exact hb z hz
    · cases hz
      obtain ⟨y, hy, hle, -⟩ := h.back x hx
      exact .inl ⟨y, hy, hle⟩
  shown h hs y hy := by
    show (if newer version c.front x then c.front else some x) = some y ∨
      (∃ z, (if newer version c.front x then c.front else some x) = some z ∧ version y < version z) ∨ y ∈ p ∨ c.removing
    obtain ⟨b, hb, hle, heq⟩ := h.back x hx
    have hby : b = y := Option.some.inj (hb.symm.trans hy)
    subst hby
    have hdrop : b ∈ c.toFront → b ∈ p ∨ b = x := by
      intro hbf
      by_cases hbx : b = x
      · exact .inr hbx
      · exact .inl (hp.rest b hbf hbx)
    split
    · next hn =>
      obtain ⟨f, hf, hlt⟩ := newer_eq_true.mp hn
      rcases hs b hy with h1 | h1 | h1 | h1
      · exact .inl h1
      · exact .inr (.inl h1)
      · rcases hdrop h1 with h1 | rfl
        · exact .inr (.inr (.inl h1))
        · exact .inr (.inl ⟨f, hf, hlt⟩)
      · exact .inr (.inr (.inr h1))
    · next hn =>
      have hn : newer version c.front x = false := by simpa using hn
      by_cases hv : version b = version x
      · exact .inl (by rw [heq hv])
      · have hlt : version x < version b := by omega
        rcases hs b hy with h1 | ⟨f, hf, hlt'⟩ | h1 | h1
        · have := newer_eq_false.mp hn b h1; omega
        · have := newer_eq_false.mp hn f hf; omega
        · rcases hdrop h1 with h1 | rfl
          · exact .inr (.inr (.inl h1))
          · exact absurd rfl hv
        · exact .inr (.inr (.inr h1))

/-- The front copy, which is older, is written, the back copy is to follow. -/
theorem preserves_writeFront (hold : ∀ y, c.front = some y → version y < version x) (hr : ¬ c.removing)
    (hapart : ∀ y ∈ c.pending, version y ≠ version x) :
    Preserves version c { c with front := some x, toBack := insert x c.toBack } where
  pairs h := by
    refine ⟨h.back, fun z hz => ?_, fun y hy z hz hv => ?_, fun h => absurd h hr⟩
    · rcases hz with rfl | hz
      · exact has_self
      · obtain ⟨y, hy, hle, -⟩ := h.front z hz
        have := hold y hy
        exact ⟨x, rfl, by omega, fun hv => absurd hv (by omega)⟩
    · have hp : ∀ w ∈ pending { c with front := some x, toBack := insert x c.toBack }, w = x ∨ w ∈ c.pending := by
        rintro w (hw | (rfl | hw))
        · exact .inr (.inl hw)
        · exact .inl rfl
        · exact .inr (.inr hw)
      rcases hp y hy with hyx | hyc <;> rcases hp z hz with hzx | hzc
      · rw [hyx, hzx]
      · exact absurd hv.symm (hyx ▸ hapart z hzc)
      · exact absurd hv (hzx ▸ hapart y hyc)
      · exact h.agree y hyc z hzc hv
  backed _ _ z hz := .inr (.inl (Option.some.inj hz).symm)
  shown _ hs y hy := by
    rcases hs y hy with h1 | ⟨f, hf, hlt⟩ | h1 | h1
    · exact .inr (.inl ⟨x, rfl, hold y h1⟩)
    · have := hold f hf
      exact .inr (.inl ⟨x, rfl, by omega⟩)
    · exact .inr (.inr (.inl h1))
    · exact absurd h1 hr

/-- The back copy follows, unless it is newer. -/
theorem preserves_settleBack {q : Set ρ} (hx : x ∈ c.toBack) (hq : Drops x c.toBack q) :
    Preserves version c { c with back := if newer version c.back x then c.back else some x, toBack := q } where
  pairs h := by
    have hsub : ∀ w ∈ c.toFront ∪ q, w ∈ c.pending := fun w hw => hw.imp id fun hw => hq.sub hw
    refine ⟨fun z hz => ?_, fun z hz => h.front z (hq.sub hz), fun y hy z hz => h.agree y (hsub y hy) z (hsub z hz),
      fun hr => ?_⟩
    · show Has version (if newer version c.back x then c.back else some x) z
      split
      · exact h.back z hz
      · next hn => exact (h.back z hz).overwritten (by simpa using hn) (h.agree x (.inr hx) z (.inl hz))
    · have hempty := (h.removed hr).2
      exact absurd (show x ∈ c.pending from .inr hx) (by rw [hempty]; exact Set.notMem_empty x)
  backed h hb z hz := by
    show (∃ y, (if newer version c.back x then c.back else some x) = some y ∧ version z ≤ version y) ∨ z ∈ q
    obtain ⟨f, hf, hle, heq⟩ := h.front x hx
    have hfz : f = z := Option.some.inj (hf.symm.trans hz)
    subst hfz
    split
    · next hn =>
      obtain ⟨y, hy, hlt⟩ := newer_eq_true.mp hn
      rcases hb f hz with h1 | h1
      · exact .inl h1
      · by_cases hfx : f = x
        · exact .inl ⟨y, hy, by rw [hfx]; omega⟩
        · exact .inr (hq.rest f h1 hfx)
    · next hn =>
      by_cases hv : version f = version x
      · exact .inl ⟨x, rfl, by omega⟩
      · rcases hb f hz with ⟨y, hy, hle'⟩ | h1
        · have := newer_eq_false.mp (by simpa using hn : newer version c.back x = false) y hy
          omega
        · exact .inr (hq.rest f h1 fun h => hv (h ▸ rfl))
  shown h hs y hy := by
    have hy : (if newer version c.back x then c.back else some x) = some y := hy
    split at hy
    · exact hs y hy
    · cases hy
      obtain ⟨f, hf, hle, heq⟩ := h.front x hx
      by_cases hv : version f = version x
      · exact .inl (by rw [hf, heq hv])
      · exact .inr (.inl ⟨f, hf, by omega⟩)

/-- The record is taken out of the front copy, the back copy is to follow. -/
theorem preserves_remove (hidle : c.pending = ∅) : Preserves version c { c with front := none, removing := True } where
  pairs h := by
    have hf : ∀ w, w ∉ c.toFront := fun w hw => absurd (show w ∈ c.pending from .inl hw) (by rw [hidle]; exact Set.notMem_empty w)
    have hb : ∀ w, w ∉ c.toBack := fun w hw => absurd (show w ∈ c.pending from .inr hw) (by rw [hidle]; exact Set.notMem_empty w)
    exact ⟨fun z hz => absurd hz (hf z), fun z hz => absurd hz (hb z), h.agree, fun _ => ⟨rfl, hidle⟩⟩
  backed _ _ _ hz := by cases hz
  shown _ _ _ _ := .inr (.inr (.inr trivial))

/-- The back copy follows. Another removal may still be pending. -/
theorem preserves_removed {r : Prop} (hr : c.removing) : Preserves version c { c with back := none, removing := r } where
  pairs h := by
    obtain ⟨hfront, hempty⟩ := h.removed hr
    have hf : ∀ w, w ∉ c.toFront := fun w hw => absurd (show w ∈ c.pending from .inl hw) (by rw [hempty]; exact Set.notMem_empty w)
    have hb : ∀ w, w ∉ c.toBack := fun w hw => absurd (show w ∈ c.pending from .inr hw) (by rw [hempty]; exact Set.notMem_empty w)
    exact ⟨fun z hz => absurd hz (hf z), fun z hz => absurd hz (hb z), h.agree, fun _ => ⟨hfront, hempty⟩⟩
  backed h _ z hz := by
    have hz : c.front = some z := hz
    rw [(h.removed hr).1] at hz
    cases hz
  shown _ _ _ hy := by cases hy

end Copies

end Lib
