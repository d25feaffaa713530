/-
Message authentication codes over hash functions, as one-time passwords read four bytes out of them.
-/
import Mathlib.Algebra.GroupWithZero.Nat
import Mathlib.Data.List.Basic

namespace Lib

inductive HashFunction where
  | sha1
  | sha256
  | sha512
deriving DecidableEq, Repr

structure Mac where
  bytes : List UInt8
  long : 20 ≤ bytes.length

namespace Mac

theorem and_lt (b : UInt8) : (b &&& 0x0f).toNat < 16 := by
  rw [UInt8.toNat_and, show (0x0f : UInt8).toNat = 2 ^ 4 - 1 from rfl, Nat.and_two_pow_sub_one_eq_mod]
  exact Nat.mod_lt _ (by decide)

/-- The low bits of the last byte: where the four bytes are. -/
def offset (mac : Mac) : Fin 16 :=
  ⟨(mac.bytes.get ⟨mac.bytes.length - 1, Nat.sub_lt (Nat.lt_of_lt_of_le (by decide) mac.long) (by decide)⟩ &&& 0x0f).toNat,
    and_lt _⟩

instance fourBytes : NeZero 4 := ⟨by decide⟩

def byte (mac : Mac) (k : Fin 4) : UInt8 :=
  mac.bytes.get ⟨mac.offset + k, Nat.lt_of_lt_of_le (by omega) mac.long⟩

/-- A value of one byte over and over. -/
def constant (b : UInt8) : Mac := ⟨List.replicate 20 b, by simp⟩

@[simp] theorem byte_constant (b : UInt8) (k : Fin 4) : (constant b).byte k = b :=
  List.eq_of_mem_replicate (List.get_mem (List.replicate 20 b) _)

end Mac

/-- The value for a hash function, a key and a message. -/
abbrev Hmac := HashFunction → List UInt8 → List UInt8 → Mac

end Lib
