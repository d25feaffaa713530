/-
Base32 (RFC 4648), decoded: five bits for a digit, and what makes no whole byte is dropped.
-/
import Mathlib.Data.List.Induction
import Mathlib.Algebra.Group.Nat.Defs

namespace Lib.Base32

/-- The value of a digit, of either case. -/
def value (c : Char) : Option Nat :=
  if 65 ≤ c.toNat ∧ c.toNat ≤ 90 then some (c.toNat - 65)
  else if 97 ≤ c.toNat ∧ c.toNat ≤ 122 then some (c.toNat - 97)
  else if 50 ≤ c.toNat ∧ c.toNat ≤ 55 then some (c.toNat - 50 + 26)
  else none

/-- Some bytes of a number, the highest first. -/
def beBytes : Nat → Nat → List UInt8
  | 0, _ => []
  | k + 1, n => beBytes k (n / 256) ++ [UInt8.ofNat n]

@[simp] theorem length_beBytes (k n : Nat) : (beBytes k n).length = k := by
  induction k generalizing n with
  | zero => rfl
  | succ k ih => simp [beBytes, ih]

theorem beBytes_inj {k a b : Nat} : beBytes k a = beBytes k b ↔ a % 256 ^ k = b % 256 ^ k := by
  induction k generalizing a b with
  | zero => simp [beBytes, Nat.mod_one]
  | succ k ih =>
    have hbyte (n : Nat) : (UInt8.ofNat n).toNat = n % 256 := UInt8.toNat_ofNat'
    have ha := Nat.mod_lt a (show 0 < 256 by decide)
    have hb := Nat.mod_lt b (show 0 < 256 by decide)
    rw [beBytes, beBytes, List.append_singleton_inj, ih, ← UInt8.toNat_inj, hbyte, hbyte, Nat.pow_succ', Nat.mod_mul,
      Nat.mod_mul]
    omega

/-- The number that bytes make. -/
def ofBytes (bytes : List UInt8) : Nat := bytes.foldl (fun n b => n * 256 + b.toNat) 0

theorem ofBytes_concat (bytes : List UInt8) (b : UInt8) : ofBytes (bytes ++ [b]) = ofBytes bytes * 256 + b.toNat := by
  simp [ofBytes]

theorem beBytes_ofBytes (bytes : List UInt8) : beBytes bytes.length (ofBytes bytes) = bytes := by
  induction bytes using List.reverseRecOn with
  | nil => rfl
  | append_singleton bytes b ih =>
    have hb := b.toNat_lt
    have hdiv : (ofBytes bytes * 256 + b.toNat) / 256 = ofBytes bytes := by omega
    have hbyte : UInt8.ofNat (ofBytes bytes * 256 + b.toNat) = b := by
      rw [← UInt8.toNat_inj, UInt8.toNat_ofNat']
      omega
    rw [List.length_append, List.length_singleton, ofBytes_concat, beBytes, hdiv, ih, hbyte]

/-- The number that digits make. -/
def number (values : List Nat) : Nat := values.foldl (fun n v => n * 32 + v) 0

@[simp] theorem number_nil : number [] = 0 := rfl

theorem number_concat (values : List Nat) (v : Nat) : number (values ++ [v]) = number values * 32 + v := by
  simp [number]

/-- The whole bytes of the bits that digits make. -/
def decode (values : List Nat) : List UInt8 :=
  beBytes (5 * values.length / 8) (number values / 2 ^ (5 * values.length % 8))

@[simp] theorem decode_nil : decode [] = [] := rfl

theorem length_decode (values : List Nat) : (decode values).length = 5 * values.length / 8 := length_beBytes _ _

/-- A digit that makes no byte. -/
theorem decode_concat_of_lt {values : List Nat} {v : Nat} (hv : v < 32) (h : 5 * values.length % 8 + 5 < 8) :
    decode (values ++ [v]) = decode values := by
  have hquot : 5 * (values ++ [v]).length / 8 = 5 * values.length / 8 := by
    simp
    omega
  have hmod : 5 * (values ++ [v]).length % 8 = 5 * values.length % 8 + 5 := by
    simp
    omega
  rw [decode, decode, hquot, hmod, number_concat, Nat.pow_add', ← Nat.div_div_eq_div_mul]
  congr 2
  omega

/-- A digit that completes a byte. -/
theorem decode_concat_of_ge {values : List Nat} {v : Nat} (hv : v < 32) (h : 8 ≤ 5 * values.length % 8 + 5) :
    decode (values ++ [v]) =
      decode values ++ [UInt8.ofNat (number (values ++ [v]) / 2 ^ (5 * values.length % 8 + 5 - 8))] := by
  have hquot : 5 * (values ++ [v]).length / 8 = 5 * values.length / 8 + 1 := by
    simp
    omega
  have hmod : 5 * (values ++ [v]).length % 8 = 5 * values.length % 8 + 5 - 8 := by
    simp
    omega
  have hrest : number (values ++ [v]) / 2 ^ (5 * values.length % 8 + 5 - 8) / 256 =
      number values / 2 ^ (5 * values.length % 8) := by
    rw [Nat.div_div_eq_div_mul, show (256 : Nat) = 2 ^ 8 from rfl, ← Nat.pow_add,
      show 5 * values.length % 8 + 5 - 8 + 8 = 5 + 5 * values.length % 8 by omega, Nat.pow_add,
      ← Nat.div_div_eq_div_mul, number_concat]
    congr 1
    omega
  rw [decode, hquot, hmod, beBytes, hrest]
  rfl

end Lib.Base32
