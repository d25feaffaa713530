/-
Arithmetic modulo a number: powers by squaring, and the difference of two residues.

Over any commutative ring two parties that combine a password exponent `x` with the
exponents `a` and `b` of a secret each reach one value, `g ^ (b * (a + u * x))`: one from
`g ^ b` masked by `k * g ^ x`, the other from `g ^ a`.
-/
import Mathlib.Data.Nat.Bits
import Mathlib.Data.ZMod.Basic
import Mathlib.Tactic.Ring

namespace Lib.Modular

/-! ## Powers -/

/-- `b ^ e` modulo `n`, by squaring over the bits of the exponent. -/
def powMod (b e n : Nat) : Nat :=
  e.bits.foldr (fun bit r => if bit then r * r % n * b % n else r * r % n) (1 % n)

theorem powMod_eq (b e n : Nat) : powMod b e n = b ^ e % n := by
  induction e using Nat.binaryRec' with
  | zero => simp [powMod]
  | bit bit e h ih =>
    have hbits : (Nat.bit bit e).bits = bit :: e.bits := Nat.bits_append_bit e bit h
    rw [powMod, hbits, List.foldr_cons, ← powMod, ih]
    cases bit with
    | false => rw [if_neg (by decide), Nat.bit_false_apply, Nat.two_mul, Nat.pow_add, ← Nat.mul_mod]
    | true =>
      rw [if_pos rfl, Nat.bit_true_apply, Nat.pow_succ, Nat.two_mul, Nat.pow_add, Nat.mul_mod, Nat.mod_mod,
        ← Nat.mul_mod (b ^ e), ← Nat.mul_mod]

theorem powMod_cast (b e n : Nat) : ((powMod b e n : Nat) : ZMod n) = (b : ZMod n) ^ e := by
  rw [powMod_eq, ZMod.natCast_mod, Nat.cast_pow]

/-! ## Differences -/

/-- `a - b` modulo `n`, of residues so that nothing goes below zero. -/
def subMod (a b n : Nat) : Nat := (a % n + n - b % n) % n

theorem subMod_cast {n : Nat} (hn : 0 < n) (a b : Nat) : ((subMod a b n : Nat) : ZMod n) = (a : ZMod n) - b := by
  have hle : b % n ≤ a % n + n := by
    have := Nat.mod_lt b hn
    omega
  rw [subMod, ZMod.natCast_mod, Nat.cast_sub hle, Nat.cast_add, ZMod.natCast_mod, ZMod.natCast_mod, ZMod.natCast_self,
    add_zero]

/-! ## The common secret -/

section Common

variable {R : Type*} [CommRing R]

/-- **The two parties of the exchange reach one value.** -/
theorem common_secret (g k : R) (a b u x : Nat) :
    (k * g ^ x + g ^ b - k * g ^ x) ^ (a + u * x) = (g ^ a * (g ^ x) ^ u) ^ b := by
  rw [add_sub_cancel_left]
  ring

end Common

theorem eq_of_cast {n a b : Nat} (ha : a < n) (hb : b < n) (h : (a : ZMod n) = b) : a = b := by
  have := (ZMod.natCast_eq_natCast_iff' a b n).1 h
  rwa [Nat.mod_eq_of_lt ha, Nat.mod_eq_of_lt hb] at this

end Lib.Modular
