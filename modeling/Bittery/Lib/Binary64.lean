/-
The quotient of whole numbers that are held in doubles, rounded down: what `Math.floor(a / b)` is.

The division rounds to 53 bits first, so a large quotient can come out as another number than the exact one.
-/
import Mathlib.Data.Nat.Log
import Mathlib.Algebra.Group.Nat.Defs

namespace Lib.Binary64

/-- The whole number nearest to `n / d`; of two the even one. -/
def roundToEven (n d : Nat) : Nat :=
  let q := n / d
  let r := n % d
  if 2 * r < d ∨ (2 * r = d ∧ q % 2 = 0) then q else q + 1

theorem le_roundToEven (n d : Nat) : n / d ≤ roundToEven n d := by
  unfold roundToEven
  dsimp only
  split <;> omega

/-- The double nearest to a number; `none` past the last one. -/
def nearest (n : Nat) : Option Nat :=
  let e := n.log2 - 52
  let rounded := roundToEven n (2 ^ e) * 2 ^ e
  if rounded < 2 ^ 1024 then some rounded else none

theorem roundToEven_one (n : Nat) : roundToEven n 1 = n := by
  rw [roundToEven, Nat.div_one, Nat.mod_one]
  exact if_pos (Or.inl (by decide))

theorem nearest_of_lt {n : Nat} (h : n < 2 ^ 53) : nearest n = some n := by
  have hlog : n.log2 - 52 = 0 := by
    rcases Nat.eq_zero_or_pos n with rfl | hpos
    · rfl
    · have hlt := (Nat.log2_lt (Nat.ne_of_gt hpos)).2 h
      omega
  have hsmall : n < 2 ^ 1024 := h.trans_le (Nat.pow_le_pow_right (by decide) (by decide))
  rw [nearest, hlog, Nat.pow_zero, roundToEven_one, Nat.mul_one, if_pos hsmall]

/-- A large number does not become a small one. -/
theorem le_of_nearest {n m : Nat} (h : 2 ^ 53 ≤ n) (hm : nearest n = some m) : 2 ^ 53 ≤ m := by
  have hne : n ≠ 0 := by
    have hpos := Nat.two_pow_pos 53
    omega
  have hlog : 53 ≤ n.log2 := (Nat.le_log2 hne).2 h
  rw [nearest] at hm
  split at hm
  · obtain rfl := Option.some.inj hm
    obtain ⟨e, he⟩ : ∃ e, n.log2 = e + 52 := ⟨n.log2 - 52, by omega⟩
    rw [he, Nat.add_sub_cancel]
    have hfirst : 2 ^ 52 ≤ n / 2 ^ e := by
      rw [Nat.le_div_iff_mul_le (Nat.two_pow_pos e), ← Nat.pow_add, Nat.add_comm, ← he]
      exact Nat.log2_self_le hne
    calc 2 ^ 53 ≤ 2 ^ 52 * 2 ^ e := by
          rw [← Nat.pow_add]
          exact Nat.pow_le_pow_right (by decide) (by omega)
      _ ≤ roundToEven n (2 ^ e) * 2 ^ e := Nat.mul_le_mul_right _ (hfirst.trans (le_roundToEven _ _))
  · cases hm

/-- `Math.floor(a / b)`: a quotient with `l + 1` bits before the point keeps `52 - l` after it. One below 1 is not
rounded up to 1, for its nearest double is at most the last one before. -/
def floorQuotient (a b : Nat) : Nat :=
  if a / b = 0 then 0
  else
    let l := (a / b).log2
    if l ≤ 52 then roundToEven (a * 2 ^ (52 - l)) b / 2 ^ (52 - l) else roundToEven a (b * 2 ^ (l - 52)) * 2 ^ (l - 52)

example : floorQuotient (2 ^ 60) 3 ≠ 2 ^ 60 / 3 := by decide +kernel

end Lib.Binary64
