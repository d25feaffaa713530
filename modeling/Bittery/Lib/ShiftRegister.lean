/-
Words of 32 bits that bits are shifted into at the low end and read from near it, with the arithmetic right shift.
-/
import Mathlib.Data.Nat.Bitwise

namespace Lib.ShiftRegister

/-- The word holds the last 32 bits of a number. -/
def Holds (word : BitVec 32) (n : Nat) : Prop := word.toNat = n % 2 ^ 32

/-- `word << k | v` -/
def shiftIn (word : BitVec 32) (k v : Nat) : BitVec 32 := word <<< k ||| BitVec.ofNat 32 v

/-- `(word >> k) & (2^w - 1)` -/
def bits (word : BitVec 32) (k w : Nat) : Nat := (word.sshiftRight k &&& BitVec.ofNat 32 (2 ^ w - 1)).toNat

theorem Holds.zero : Holds 0 0 := rfl

theorem mul_add_mod_mul {n m k v : Nat} (hv : v < k) : (n * k + v) % (m * k) = n % m * k + v := by
  rcases Nat.eq_zero_or_pos m with rfl | hm
  · rw [Nat.zero_mul, Nat.mod_zero, Nat.mod_zero]
  · have hlt : n % m * k + v < m * k := calc
      n % m * k + v < n % m * k + k := Nat.add_lt_add_left hv _
      _ = (n % m + 1) * k := by rw [Nat.add_mul, Nat.one_mul]
      _ ≤ m * k := Nat.mul_le_mul_right k (Nat.mod_lt n hm)
    have hsplit : n * k + v = m * k * (n / m) + (n % m * k + v) := by
      rw [← Nat.add_assoc, Nat.mul_right_comm, ← Nat.add_mul, Nat.div_add_mod]
    rw [hsplit, Nat.mul_add_mod, Nat.mod_eq_of_lt hlt]

theorem Holds.shiftIn {word : BitVec 32} {n k v : Nat} (h : Holds word n) (hk : k ≤ 32) (hv : v < 2 ^ k) :
    Holds (shiftIn word k v) (n * 2 ^ k + v) := by
  have hsplit : 2 ^ 32 = 2 ^ (32 - k) * 2 ^ k := by
    rw [← Nat.pow_add, Nat.sub_add_cancel hk]
  have hshift : (word <<< k).toNat = (n % 2 ^ (32 - k)) <<< k := by
    rw [BitVec.toNat_shiftLeft, h, Nat.shiftLeft_eq, Nat.shiftLeft_eq, Nat.mod_mul_mod, hsplit, Nat.mul_mod_mul_right]
  have hsmall : v < 2 ^ 32 := Nat.lt_of_lt_of_le hv (Nat.pow_le_pow_right (by decide) hk)
  rw [Holds, ShiftRegister.shiftIn, BitVec.toNat_or, hshift, BitVec.toNat_ofNat, Nat.mod_eq_of_lt hsmall,
    ← Nat.shiftLeft_add_eq_or_of_lt hv, Nat.shiftLeft_eq, hsplit, mul_add_mod_mul hv]

/-- The sign does not come down to the bits that are read. -/
theorem Holds.bits {word : BitVec 32} {n k w : Nat} (h : Holds word n) (hkw : k + w ≤ 32) :
    bits word k w = n / 2 ^ k % 2 ^ w := by
  have hmask : (BitVec.ofNat 32 (2 ^ w - 1)).toNat = 2 ^ w - 1 := by
    have hpow : 2 ^ w ≤ 2 ^ 32 := Nat.pow_le_pow_right (by decide) (by omega)
    have hpos := Nat.two_pow_pos w
    rw [BitVec.toNat_ofNat, Nat.mod_eq_of_lt (by omega)]
  have hlogical : word.sshiftRight k &&& BitVec.ofNat 32 (2 ^ w - 1) = word >>> k &&& BitVec.ofNat 32 (2 ^ w - 1) := by
    apply BitVec.eq_of_getLsbD_eq
    intro i hi
    rw [BitVec.getLsbD_and, BitVec.getLsbD_and, BitVec.getLsbD_sshiftRight, BitVec.getLsbD_ushiftRight]
    by_cases hin : i < w
    · simp [show ¬32 ≤ i by omega, show k + i < 32 by omega]
    · have hout : (BitVec.ofNat 32 (2 ^ w - 1)).getLsbD i = false := by
        rw [BitVec.getLsbD, hmask, Nat.testBit_two_pow_sub_one]
        exact decide_eq_false hin
      rw [hout, Bool.and_false, Bool.and_false]
  have hsplit : 2 ^ 32 = 2 ^ k * 2 ^ (32 - k) := by
    rw [← Nat.pow_add]
    congr 1
    omega
  rw [ShiftRegister.bits, hlogical, BitVec.toNat_and, hmask, Nat.and_two_pow_sub_one_eq_mod, BitVec.toNat_ushiftRight, h,
    Nat.shiftRight_eq_div_pow, hsplit, Nat.mod_mul_right_div_self,
    Nat.mod_mod_of_dvd _ (Nat.pow_dvd_pow 2 (by omega))]

end Lib.ShiftRegister
