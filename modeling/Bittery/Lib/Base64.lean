/-
Base64 (RFC 4648): six bits for a character, three bytes for four.

The standard alphabet comes with padding, the one for URLs without; the decoder of the latter
refuses what the encoder does not make: a single character at the end, and bits left over.
-/
import Mathlib.Tactic.NormNum

namespace Lib.Base64

/-! ## Digits -/

/-- The character of six bits; `forUrl` chooses the last two characters of the alphabet. -/
def digit (forUrl : Bool) (n : Nat) : Char :=
  if n < 26 then Char.ofNat (65 + n)
  else if n < 52 then Char.ofNat (97 + (n - 26))
  else if n < 62 then Char.ofNat (48 + (n - 52))
  else if n = 62 then if forUrl then '-' else '+'
  else if forUrl then '_' else '/'

def value (forUrl : Bool) (c : Char) : Option Nat :=
  if 'A' ≤ c ∧ c ≤ 'Z' then some (c.toNat - 65)
  else if 'a' ≤ c ∧ c ≤ 'z' then some (c.toNat - 97 + 26)
  else if '0' ≤ c ∧ c ≤ '9' then some (c.toNat - 48 + 52)
  else if c = (if forUrl then '-' else '+') then some 62
  else if c = (if forUrl then '_' else '/') then some 63
  else none

theorem value_digit {forUrl : Bool} {n : Nat} (h : n < 64) : value forUrl (digit forUrl n) = some n := by
  have hall : ∀ forUrl : Bool, ∀ n < 64, value forUrl (digit forUrl n) = some n := by decide
  exact hall forUrl n h

/-- A digit is an ASCII character that is neither a dot nor one that a text has to escape. -/
theorem digit_plain {forUrl : Bool} {n : Nat} (h : n < 64) : 0x20 < (digit forUrl n).toNat ∧ (digit forUrl n).toNat < 0x7f ∧
    digit forUrl n ≠ '.' ∧ digit forUrl n ≠ '"' ∧ digit forUrl n ≠ '\\' := by
  have hall : ∀ forUrl : Bool, ∀ n < 64, 0x20 < (digit forUrl n).toNat ∧ (digit forUrl n).toNat < 0x7f ∧
    digit forUrl n ≠ '.' ∧ digit forUrl n ≠ '"' ∧ digit forUrl n ≠ '\\' := by decide
  exact hall forUrl n h

/-! ## Encoding -/

/-- The values of the characters that bytes are encoded as. -/
def sextets : List UInt8 → List Nat
  | [] => []
  | [a] => [a.toNat / 4, a.toNat % 4 * 16]
  | [a, b] => [a.toNat / 4, a.toNat % 4 * 16 + b.toNat / 16, b.toNat % 16 * 4]
  | a :: b :: c :: rest =>
    a.toNat / 4 :: (a.toNat % 4 * 16 + b.toNat / 16) :: (b.toNat % 16 * 4 + c.toNat / 64) :: c.toNat % 64 :: sextets rest

/-- With the URL alphabet, without padding. -/
def encodeUrl (bytes : List UInt8) : List Char := (sextets bytes).map (digit true)

/-- With the standard alphabet, filled up to a multiple of four characters. -/
def encode (bytes : List UInt8) : List Char :=
  (sextets bytes).map (digit false) ++ List.replicate ((3 - bytes.length % 3) % 3) '='

theorem sextets_lt (bytes : List UInt8) : ∀ n ∈ sextets bytes, n < 64 := by
  induction bytes using sextets.induct with
  | case1 => simp [sextets]
  | case2 a =>
    have := a.toNat_lt
    simp only [sextets, List.mem_cons, List.not_mem_nil, or_false, forall_eq_or_imp, forall_eq]
    omega
  | case3 a b =>
    have := a.toNat_lt
    have := b.toNat_lt
    simp only [sextets, List.mem_cons, List.not_mem_nil, or_false, forall_eq_or_imp, forall_eq]
    omega
  | case4 a b c rest ih =>
    have := a.toNat_lt
    have := b.toNat_lt
    have := c.toNat_lt
    simp only [sextets, List.mem_cons, forall_eq_or_imp]
    exact ⟨by omega, by omega, by omega, by omega, ih⟩

theorem mem_encodeUrl {bytes : List UInt8} {c : Char} (h : c ∈ encodeUrl bytes) : c ≠ '.' := by
  obtain ⟨n, hn, rfl⟩ := List.mem_map.mp h
  exact (digit_plain (sextets_lt bytes n hn)).2.2.1

/-- The characters of an encoding are digits and the padding. -/
theorem mem_encode {bytes : List UInt8} {c : Char} (h : c ∈ encode bytes) :
    0x20 < c.toNat ∧ c.toNat < 0x7f ∧ c ≠ '"' ∧ c ≠ '\\' := by
  rcases List.mem_append.mp h with h | h
  · obtain ⟨n, hn, rfl⟩ := List.mem_map.mp h
    have hplain := @digit_plain false n (sextets_lt bytes n hn)
    exact ⟨hplain.1, hplain.2.1, hplain.2.2.2⟩
  · rw [(List.mem_replicate.mp h).2]
    decide

/-- **The length of an encoding**: four characters for three bytes, begun ones included. -/
theorem length_encode (bytes : List UInt8) : (encode bytes).length = (bytes.length + 2) / 3 * 4 := by
  have hlength : (sextets bytes).length = bytes.length / 3 * 4 + if bytes.length % 3 = 0 then 0 else bytes.length % 3 + 1 := by
    induction bytes using sextets.induct with
    | case1 => rfl
    | case2 a => simp [sextets]
    | case3 a b => simp [sextets]
    | case4 a b c rest ih =>
      have hdiv : (rest.length + 1 + 1 + 1) / 3 = rest.length / 3 + 1 := by omega
      have hmod : (rest.length + 1 + 1 + 1) % 3 = rest.length % 3 := by omega
      simp only [sextets, List.length_cons, ih, hdiv, hmod]
      omega
  simp only [encode, List.length_append, List.length_map, List.length_replicate, hlength]
  split <;> omega

/-! ## Decoding -/

/-- The bytes of values, when the last ones have no bits left over. -/
def bytesOf : List Nat → Option (List UInt8)
  | [] => some []
  | [_] => none
  | [x, y] => if y % 16 = 0 then some [UInt8.ofNat (x * 4 + y / 16)] else none
  | [x, y, z] =>
    if z % 4 = 0 then some [UInt8.ofNat (x * 4 + y / 16), UInt8.ofNat (y % 16 * 16 + z / 4)] else none
  | x :: y :: z :: w :: rest => (bytesOf rest).map fun bytes =>
    UInt8.ofNat (x * 4 + y / 16) :: UInt8.ofNat (y % 16 * 16 + z / 4) :: UInt8.ofNat (z % 4 * 64 + w) :: bytes

def decodeUrl (text : List Char) : Option (List UInt8) := (text.mapM (value true)).bind bytesOf

theorem ofNat_eq {a : UInt8} {n : Nat} (h : n = a.toNat) : UInt8.ofNat n = a := by
  subst h
  exact UInt8.ofNat_toNat

theorem bytesOf_sextets (bytes : List UInt8) : bytesOf (sextets bytes) = some bytes := by
  induction bytes using sextets.induct with
  | case1 => rfl
  | case2 a =>
    rw [sextets, bytesOf, if_pos (by omega), ofNat_eq (a := a) (by omega)]
  | case3 a b =>
    have := b.toNat_lt
    rw [sextets, bytesOf, if_pos (by omega), ofNat_eq (a := a) (by omega), ofNat_eq (a := b) (by omega)]
  | case4 a b c rest ih =>
    have := b.toNat_lt
    have := c.toNat_lt
    rw [sextets, bytesOf, ih, Option.map_some, ofNat_eq (a := a) (by omega), ofNat_eq (a := b) (by omega),
      ofNat_eq (a := c) (by omega)]

theorem mapM_value {forUrl : Bool} {l : List Nat} (h : ∀ n ∈ l, n < 64) :
    (l.map (digit forUrl)).mapM (value forUrl) = some l := by
  induction l with
  | nil => rfl
  | cons n l ih =>
    rw [List.map_cons, List.mapM_cons, value_digit (h n List.mem_cons_self), ih fun m hm => h m (List.mem_cons_of_mem n hm)]
    rfl

/-- **A text that was encoded is decoded to what it was.** -/
theorem decodeUrl_encodeUrl (bytes : List UInt8) : decodeUrl (encodeUrl bytes) = some bytes := by
  rw [decodeUrl, encodeUrl, mapM_value (sextets_lt bytes)]
  exact bytesOf_sextets bytes

/-- The decoder of the standard alphabet, which drops the padding. -/
def decode (text : List Char) : Option (List UInt8) :=
  ((text.reverse.dropWhile (· = '=')).reverse.mapM (value false)).bind bytesOf

theorem digit_ne_padding {n : Nat} (h : n < 64) : digit false n ≠ '=' := by
  have hall : ∀ n < 64, digit false n ≠ '=' := by decide
  exact hall n h

theorem dropWhile_padding (k : Nat) {l : List Nat} (h : ∀ n ∈ l, n < 64) :
    ((l.map (digit false) ++ List.replicate k '=').reverse.dropWhile (fun c => decide (c = '='))).reverse =
      l.map (digit false) := by
  have hrest : ((l.map (digit false)).reverse.dropWhile fun c => decide (c = '=')) = (l.map (digit false)).reverse := by
    cases hl : (l.map (digit false)).reverse with
    | nil => rfl
    | cons c rest =>
      have hc : c ∈ l.map (digit false) := List.mem_reverse.1 (hl ▸ List.mem_cons_self)
      obtain ⟨n, hn, rfl⟩ := List.mem_map.1 hc
      exact List.dropWhile_cons_of_neg (by simp [digit_ne_padding (h n hn)])
  rw [List.reverse_append, List.reverse_replicate]
  induction k with
  | zero => rw [List.replicate_zero, List.nil_append, hrest, List.reverse_reverse]
  | succ k ih => rwa [List.replicate_succ, List.cons_append, List.dropWhile_cons_of_pos (by simp)]

theorem decode_encode (bytes : List UInt8) : decode (encode bytes) = some bytes := by
  rw [decode, encode, dropWhile_padding _ (sextets_lt bytes), mapM_value (sextets_lt bytes)]
  exact bytesOf_sextets bytes

end Lib.Base64
