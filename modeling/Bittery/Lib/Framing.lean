/-
Fields that are written one after another and read apart again: a field that ends at a separator
it does not hold, and one that its length comes before.
-/
import Mathlib.Data.List.Basic
import Mathlib.Algebra.Group.Nat.Defs

namespace Lib.Framing

variable {α β : Type}

/-- What is written of one value can be told from what follows it. -/
def Delimited (write : α → List β) (P : α → Prop) : Prop :=
  ∀ a b : α, P a → P b → ∀ s t : List β, write a ++ s = write b ++ t → a = b ∧ s = t

theorem Delimited.inj {write : α → List β} {P : α → Prop} (h : Delimited write P) {a b : α} (ha : P a) (hb : P b)
    (heq : write a = write b) : a = b :=
  (h a b ha hb [] [] (by rw [heq])).1

/-! ## Separators -/

theorem append_cons_inj {sep : β} {a b s t : List β} (ha : sep ∉ a) (hb : sep ∉ b)
    (h : a ++ sep :: s = b ++ sep :: t) : a = b ∧ s = t := by
  induction a generalizing b with
  | nil =>
    cases b with
    | nil => exact ⟨rfl, (List.cons.inj h).2⟩
    | cons y b => exact absurd ((List.cons.inj h).1 ▸ List.mem_cons_self) hb
  | cons x a ih =>
    cases b with
    | nil => exact absurd ((List.cons.inj h).1 ▸ List.mem_cons_self) ha
    | cons y b =>
      simp only [List.cons_append, List.cons.injEq] at h
      obtain ⟨rfl, rfl⟩ := ih (fun hmem => ha (List.mem_cons_of_mem _ hmem)) (fun hmem => hb (List.mem_cons_of_mem _ hmem)) h.2
      exact ⟨congrArg (· :: a) h.1, rfl⟩

/-! ## Lengths -/

/-- A number of 32 bits, its highest byte first. -/
def be32 (n : Nat) : List UInt8 :=
  [UInt8.ofNat (n / 16777216), UInt8.ofNat (n / 65536), UInt8.ofNat (n / 256), UInt8.ofNat n]

theorem be32_inj {n m : Nat} (hn : n < 2 ^ 32) (hm : m < 2 ^ 32) (h : be32 n = be32 m) : n = m := by
  simp only [be32, List.cons.injEq, ← UInt8.toNat_inj, UInt8.toNat_ofNat', and_true] at h
  omega

/-- A field and, before it, its length. -/
def counted (field : List UInt8) : List UInt8 := be32 field.length ++ field

theorem delimited_counted : Delimited counted (·.length < 2 ^ 32) := by
  intro a b ha hb s t h
  simp only [counted, List.append_assoc] at h
  obtain ⟨hlength, h⟩ := List.append_inj h rfl
  exact List.append_inj h (be32_inj ha hb hlength)

end Lib.Framing
