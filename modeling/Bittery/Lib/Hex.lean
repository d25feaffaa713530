/-
Hexadecimal text: reading numbers and bytes from digits of either case, and writing a number
with a given width.

A number written with leading zeros reads back as itself whatever the width, and text with
an even number of digits spells as many bytes as half of it, whose value as a big-endian
number is that of the text.
-/
import Mathlib.Data.List.Basic
import Mathlib.Tactic.Ring

namespace Lib.Hex

/-! ## Digits -/

def isHexDigit (c : Char) : Bool :=
  c.isDigit || ('a' ≤ c && c ≤ 'f') || ('A' ≤ c && c ≤ 'F')

def digitValue (c : Char) : Nat :=
  if c.isDigit then c.toNat - 48 else if 'a' ≤ c ∧ c ≤ 'f' then c.toNat - 87 else c.toNat - 55

theorem isHexDigit_digitChar : ∀ d < 16, isHexDigit (Nat.digitChar d) = true := by decide

theorem digitValue_digitChar : ∀ d < 16, digitValue (Nat.digitChar d) = d := by decide

theorem digitValue_lt {c : Char} (h : isHexDigit c = true) : digitValue c < 16 := by
  simp only [isHexDigit, Bool.or_eq_true, Bool.and_eq_true, decide_eq_true_eq] at h
  simp only [digitValue]
  have hle : ∀ {a b : Char}, a ≤ b → a.toNat ≤ b.toNat := fun h => h
  split
  · rename_i hd
    simp only [Char.isDigit, Bool.and_eq_true, decide_eq_true_eq] at hd
    have : c.toNat ≤ 57 := hle hd.2
    omega
  · rename_i hd
    split
    · rename_i hl
      have : c.toNat ≤ 102 := hle hl.2
      omega
    · rename_i hl
      have hu := h.resolve_left (fun h' => h'.elim hd hl)
      have : c.toNat ≤ 70 := hle hu.2
      omega

/-! ## Numbers -/

/-- The number some digits spell, the most significant first. -/
def value (l : List Char) : Nat := l.foldl (fun n c => 16 * n + digitValue c) 0

theorem foldl_value (l : List Char) (n : Nat) :
    l.foldl (fun n c => 16 * n + digitValue c) n = 16 ^ l.length * n + value l := by
  induction l generalizing n with
  | nil => simp [value]
  | cons c l ih =>
    rw [value, List.foldl_cons, List.foldl_cons, ih, ih (16 * 0 + digitValue c), List.length_cons]
    ring

theorem value_cons (c : Char) (l : List Char) : value (c :: l) = 16 ^ l.length * digitValue c + value l := by
  rw [value, List.foldl_cons, foldl_value, Nat.mul_zero, Nat.zero_add]

theorem value_append (l m : List Char) : value (l ++ m) = 16 ^ m.length * value l + value m := by
  rw [value, List.foldl_append, foldl_value, ← value]

theorem value_replicate_zero (n : Nat) : value (List.replicate n '0') = 0 := by
  induction n with
  | zero => rfl
  | succ n ih => rw [List.replicate_succ, value_cons, ih, show digitValue '0' = 0 from rfl]; simp

theorem value_lt {l : List Char} (h : ∀ c ∈ l, isHexDigit c = true) : value l < 16 ^ l.length := by
  induction l with
  | nil => simp [value]
  | cons c l ih =>
    have hc := digitValue_lt (h c (by simp))
    have hl := ih fun d hd => h d (by simp [hd])
    have hmul : 16 ^ l.length * digitValue c ≤ 16 ^ l.length * 15 := Nat.mul_le_mul_left _ (by omega)
    rw [value_cons, List.length_cons, Nat.pow_succ]
    omega

/-- The digits of `n`, with zeros before them up to the width. -/
def padded (width n : Nat) : List Char := List.leftpad width '0' (Nat.toDigits 16 n)

theorem isHexDigit_toDigits (n : Nat) : ∀ c ∈ Nat.toDigits 16 n, isHexDigit c = true := by
  induction n using Nat.strong_induction_on with
  | h n ih =>
    rw [Nat.toDigits_eq_if (by omega)]
    intro c hc
    split at hc
    · rename_i h
      rw [List.mem_singleton.1 hc]
      exact isHexDigit_digitChar n h
    · rcases List.mem_append.1 hc with hc | hc
      · exact ih (n / 16) (by omega) c hc
      · rw [List.mem_singleton.1 hc]
        exact isHexDigit_digitChar _ (Nat.mod_lt n (by omega))

theorem value_toDigits (n : Nat) : value (Nat.toDigits 16 n) = n := by
  induction n using Nat.strong_induction_on with
  | h n ih =>
    rw [Nat.toDigits_eq_if (by omega)]
    split
    · rename_i h
      simp [value, digitValue_digitChar n h]
    · have hmod := digitValue_digitChar (n % 16) (Nat.mod_lt n (by omega))
      rw [value_append, ih (n / 16) (by omega)]
      simp only [value, List.foldl_cons, List.foldl_nil, List.length_singleton, hmod]
      omega

theorem isHexDigit_padded (width n : Nat) : ∀ c ∈ padded width n, isHexDigit c = true := by
  intro c hc
  rcases List.mem_append.1 hc with hc | hc
  · rw [List.eq_of_mem_replicate hc]
    rfl
  · exact isHexDigit_toDigits n c hc

/-- **A number reads back whatever the width it was written with.** -/
theorem value_padded (width n : Nat) : value (padded width n) = n := by
  rw [padded, List.leftpad, value_append, value_replicate_zero, value_toDigits]
  simp

theorem length_padded {width n : Nat} (hw : 0 < width) (hn : n < 16 ^ width) :
    (padded width n).length = width := by
  have := (Nat.length_toDigits_le_iff (by omega) hw).2 hn
  rw [padded, List.length_leftpad]
  omega

theorem padded_ne_nil (width n : Nat) : padded width n ≠ [] := by
  simp [padded, List.leftpad]

/-! ## Bytes -/

/-- The bytes some digits spell, two digits a byte: none for an odd number of them and for a
character that is no digit. -/
def decode : List Char → Option (List UInt8)
  | [] => some []
  | [_] => none
  | a :: b :: l =>
    if isHexDigit a && isHexDigit b then
      (decode l).map (UInt8.ofNat (16 * digitValue a + digitValue b) :: ·)
    else none

def encode (bytes : List UInt8) : List Char :=
  bytes.flatMap fun b => [Nat.digitChar (b.toNat / 16), Nat.digitChar (b.toNat % 16)]

/-- The number some bytes spell, the most significant first. -/
def ofBytes (bytes : List UInt8) : Nat := bytes.foldl (fun n b => 256 * n + b.toNat) 0

theorem foldl_ofBytes (l : List UInt8) (n : Nat) :
    l.foldl (fun n b => 256 * n + b.toNat) n = 256 ^ l.length * n + ofBytes l := by
  induction l generalizing n with
  | nil => simp [ofBytes]
  | cons b l ih =>
    rw [ofBytes, List.foldl_cons, List.foldl_cons, ih, ih (256 * 0 + b.toNat), List.length_cons]
    ring

theorem ofBytes_cons (b : UInt8) (l : List UInt8) : ofBytes (b :: l) = 256 ^ l.length * b.toNat + ofBytes l := by
  rw [ofBytes, List.foldl_cons, foldl_ofBytes, Nat.mul_zero, Nat.zero_add]

theorem ofBytes_lt (l : List UInt8) : ofBytes l < 256 ^ l.length := by
  induction l with
  | nil => simp [ofBytes]
  | cons b l ih =>
    have hb := b.toNat_lt
    have hmul : 256 ^ l.length * b.toNat ≤ 256 ^ l.length * 255 := Nat.mul_le_mul_left _ (by omega)
    rw [ofBytes_cons, List.length_cons, Nat.pow_succ]
    omega

/-- As many bytes that spell the same number are the same. -/
theorem ofBytes_inj (l m : List UInt8) : l.length = m.length → ofBytes l = ofBytes m → l = m := by
  induction l generalizing m with
  | nil => exact fun hlen _ => (List.length_eq_zero_iff.1 hlen.symm).symm
  | cons b l ih =>
    intro hlen h
    cases m with
    | nil => simp at hlen
    | cons c m =>
      simp only [List.length_cons, Nat.add_right_cancel_iff] at hlen
      rw [ofBytes_cons, ofBytes_cons, hlen] at h
      have hl := ofBytes_lt l
      have hm := ofBytes_lt m
      rw [hlen] at hl
      have hpos : 0 < 256 ^ m.length := Nat.pow_pos (by omega)
      have hdiv := congrArg (· / 256 ^ m.length) h
      simp only [Nat.mul_add_div hpos, Nat.div_eq_of_lt hl, Nat.div_eq_of_lt hm, Nat.add_zero] at hdiv
      rw [hdiv] at h
      rw [UInt8.toNat_inj.1 hdiv, ih m hlen (by omega)]

/-- **An even number of digits spells bytes, and they spell the same number.** -/
theorem decode_of_even (l : List Char) : (∀ c ∈ l, isHexDigit c = true) → Even l.length →
    ∃ bytes, decode l = some bytes ∧ bytes.length * 2 = l.length ∧ ofBytes bytes = value l := by
  induction l using decode.induct with
  | case1 => exact fun _ _ => ⟨[], rfl, rfl, rfl⟩
  | case2 c =>
    intro _ he
    simp at he
  | case3 a b l hab ih =>
    intro hl he
    simp only [List.mem_cons, forall_eq_or_imp] at hl
    have heven : Even l.length := by
      rw [List.length_cons, List.length_cons] at he
      obtain ⟨k, hk⟩ := he
      exact ⟨k - 1, by omega⟩
    obtain ⟨bytes, hd, hlen, hv⟩ := ih hl.2.2 heven
    have ha := digitValue_lt hl.1
    have hb := digitValue_lt hl.2.1
    refine ⟨UInt8.ofNat (16 * digitValue a + digitValue b) :: bytes, ?_, ?_, ?_⟩
    · rw [decode, if_pos hab, hd, Option.map_some]
    · simp only [List.length_cons]
      omega
    · have hpow : 256 ^ bytes.length = 16 ^ l.length := by
        rw [show (256 : Nat) = 16 ^ 2 from rfl, ← Nat.pow_mul, Nat.mul_comm, hlen]
      have hbyte : (UInt8.ofNat (16 * digitValue a + digitValue b)).toNat = 16 * digitValue a + digitValue b := by
        rw [UInt8.toNat_ofNat']
        omega
      rw [ofBytes_cons, hbyte, hv, hpow, value_cons, value_cons, List.length_cons]
      ring
  | case4 a b l hab =>
    intro hl _
    simp only [List.mem_cons, forall_eq_or_imp] at hl
    simp [hl.1, hl.2.1] at hab

theorem isHexDigit_encode (bytes : List UInt8) : ∀ c ∈ encode bytes, isHexDigit c = true := by
  intro c hc
  obtain ⟨b, -, hb⟩ := List.mem_flatMap.1 hc
  have := b.toNat_lt
  simp only [List.mem_cons, List.not_mem_nil, or_false] at hb
  rcases hb with rfl | rfl
  · exact isHexDigit_digitChar _ (by omega)
  · exact isHexDigit_digitChar _ (by omega)

theorem length_encode (bytes : List UInt8) : (encode bytes).length = bytes.length * 2 := by
  induction bytes with
  | nil => rfl
  | cons b l ih =>
    rw [encode, List.flatMap_cons, ← encode, List.length_append, ih]
    simp only [List.length_cons, List.length_nil]
    omega

end Lib.Hex
