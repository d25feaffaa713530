/-
The UTF-8 decoder of the platform, byte by byte, so that a text may come in pieces that end anywhere.
-/
import Bittery.Lib.Ecma

namespace Lib.Utf8

/-- The bytes that a character still needs, its value so far, and the bounds of the next byte. -/
structure Decoder where
  needed : Nat
  codePoint : Nat
  lower : Nat
  upper : Nat
deriving DecidableEq, Repr

namespace Decoder

def initial : Decoder where
  needed := 0
  codePoint := 0
  lower := 0x80
  upper := 0xBF

/-- The first byte of a character. -/
def lead (b : UInt8) : Decoder × List Char :=
  let n := b.toNat
  if n ≤ 0x7F then (initial, [Char.ofNat n])
  else if 0xC2 ≤ n ∧ n ≤ 0xDF then ({ initial with needed := 1, codePoint := n % 0x20 }, [])
  else if 0xE0 ≤ n ∧ n ≤ 0xEF then
    ({ needed := 2, codePoint := n % 0x10, lower := if n = 0xE0 then 0xA0 else 0x80,
       upper := if n = 0xED then 0x9F else 0xBF }, [])
  else if 0xF0 ≤ n ∧ n ≤ 0xF4 then
    ({ needed := 3, codePoint := n % 0x08, lower := if n = 0xF0 then 0x90 else 0x80,
       upper := if n = 0xF4 then 0x8F else 0xBF }, [])
  else (initial, [REPLACEMENT])

/-- A byte that does not continue its character starts another one. -/
def step (d : Decoder) (b : UInt8) : Decoder × List Char :=
  if d.needed = 0 then lead b
  else if b.toNat < d.lower ∨ d.upper < b.toNat then
    let (d, chars) := lead b
    (d, REPLACEMENT :: chars)
  else
    let codePoint := d.codePoint * 0x40 + b.toNat % 0x40
    if d.needed = 1 then (initial, [Char.ofNat codePoint])
    else ({ initial with needed := d.needed - 1, codePoint }, [])

def run (d : Decoder) : List UInt8 → Decoder × List Char
  | [] => (d, [])
  | b :: bytes =>
    let (d, chars) := d.step b
    let (d, rest) := run d bytes
    (d, chars ++ rest)

theorem run_append (d : Decoder) (bytes bytes' : List UInt8) :
    d.run (bytes ++ bytes') = ((((d.run bytes).1).run bytes').1, (d.run bytes).2 ++ (((d.run bytes).1).run bytes').2) := by
  induction bytes generalizing d with
  | nil => simp [run]
  | cons b bytes ih => simp only [List.cons_append, run, ih, List.append_assoc]

/-! ## What is encoded -/

theorem run_cons (d : Decoder) (b : UInt8) (bytes : List UInt8) :
    d.run (b :: bytes) = (((d.step b).1.run bytes).1, (d.step b).2 ++ ((d.step b).1.run bytes).2) := rfl

theorem step_initial (b : UInt8) : initial.step b = lead b := rfl

theorem lead_one {b : UInt8} (h : b.toNat ≤ 0x7F) : lead b = (initial, [Char.ofNat b.toNat]) := if_pos h

theorem lead_two {b : UInt8} (h : 0xC2 ≤ b.toNat ∧ b.toNat ≤ 0xDF) :
    lead b = ({ initial with needed := 1, codePoint := b.toNat % 0x20 }, []) := by
  rw [lead]
  dsimp only
  rw [if_neg (by omega), if_pos h]

theorem lead_three {b : UInt8} (h : 0xE0 ≤ b.toNat ∧ b.toNat ≤ 0xEF) :
    lead b = (⟨2, b.toNat % 0x10, if b.toNat = 0xE0 then 0xA0 else 0x80, if b.toNat = 0xED then 0x9F else 0xBF⟩, []) := by
  rw [lead]
  dsimp only
  rw [if_neg (by omega), if_neg (by omega), if_pos h]

theorem lead_four {b : UInt8} (h : 0xF0 ≤ b.toNat ∧ b.toNat ≤ 0xF4) :
    lead b = (⟨3, b.toNat % 0x08, if b.toNat = 0xF0 then 0x90 else 0x80, if b.toNat = 0xF4 then 0x8F else 0xBF⟩, []) := by
  rw [lead]
  dsimp only
  rw [if_neg (by omega), if_neg (by omega), if_neg (by omega), if_pos h]

/-- A byte inside a character. -/
theorem step_continue {d : Decoder} {b : UInt8} (hneeded : 1 < d.needed) (hlower : d.lower ≤ b.toNat)
    (hupper : b.toNat ≤ d.upper) :
    d.step b = ({ initial with needed := d.needed - 1, codePoint := d.codePoint * 0x40 + b.toNat % 0x40 }, []) := by
  rw [step, if_neg (by omega), if_neg (by omega)]
  dsimp only
  rw [if_neg (by omega)]

/-- The last byte of a character. -/
theorem step_last {d : Decoder} {b : UInt8} (hneeded : d.needed = 1) (hlower : d.lower ≤ b.toNat)
    (hupper : b.toNat ≤ d.upper) :
    d.step b = (initial, [Char.ofNat (d.codePoint * 0x40 + b.toNat % 0x40)]) := by
  rw [step, if_neg (by omega), if_neg (by omega)]
  dsimp only
  rw [if_pos hneeded]

/-- A character is decoded from its bytes. -/
theorem run_utf8EncodeChar (c : Char) : initial.run (String.utf8EncodeChar c) = (initial, [c]) := by
  have hvalid : c.val.toNat.isValidChar := c.valid
  have hc {n : Nat} (h : n = c.val.toNat) : Char.ofNat n = c := h ▸ Char.ofNat_toNat c
  have hto : ∀ {n : Nat}, n < 256 → (UInt8.ofNat n).toNat = n := fun h => UInt8.toNat_ofNat_of_lt' h
  unfold String.utf8EncodeChar
  generalize c.val.toNat = v at hvalid hc ⊢
  unfold Nat.isValidChar at hvalid
  simp only
  split
  · next h =>
    have hb := hto (show v < 256 by omega)
    rw [run_cons, step_initial, lead_one (by omega), hb, hc rfl]
    rfl
  · split
    · next h₀ h =>
      have hb := hto (show v / 64 % 0x20 + 0xC0 < 256 by omega)
      have hb₁ := hto (show v % 0x40 + 0x80 < 256 by omega)
      rw [run_cons, step_initial, lead_two (by omega), run_cons, step_last rfl (by rw [hb₁]; exact Nat.le_add_left _ _)
        (by rw [hb₁]; change _ ≤ 0xBF; omega), hc (by dsimp only; rw [hb, hb₁]; omega)]
      rfl
    · split
      · next h₀ h₁ h =>
        have hb := hto (show v / 4096 % 0x10 + 0xE0 < 256 by omega)
        have hb₁ := hto (show v / 64 % 0x40 + 0x80 < 256 by omega)
        have hb₂ := hto (show v % 0x40 + 0x80 < 256 by omega)
        rw [run_cons, step_initial, lead_three (by omega), run_cons, step_continue (show 1 < 2 by decide)
          (by rw [hb, hb₁]; dsimp only; split <;> omega) (by rw [hb, hb₁]; dsimp only; split <;> omega), run_cons,
          step_last rfl (by rw [hb₂]; exact Nat.le_add_left _ _) (by rw [hb₂]; change _ ≤ 0xBF; omega),
          hc (by dsimp only; rw [hb, hb₁, hb₂]; omega)]
        rfl
      · next h₀ h₁ h =>
        have hb := hto (show v / 262144 % 0x08 + 0xF0 < 256 by omega)
        have hb₁ := hto (show v / 4096 % 0x40 + 0x80 < 256 by omega)
        have hb₂ := hto (show v / 64 % 0x40 + 0x80 < 256 by omega)
        have hb₃ := hto (show v % 0x40 + 0x80 < 256 by omega)
        rw [run_cons, step_initial, lead_four (by omega), run_cons, step_continue (show 1 < 3 by decide)
          (by rw [hb, hb₁]; dsimp only; split <;> omega) (by rw [hb, hb₁]; dsimp only; split <;> omega), run_cons,
          step_continue (show 1 < 2 by decide) (by rw [hb₂]; exact Nat.le_add_left _ _) (by rw [hb₂]; change _ ≤ 0xBF; omega), run_cons,
          step_last rfl (by rw [hb₃]; exact Nat.le_add_left _ _) (by rw [hb₃]; change _ ≤ 0xBF; omega),
          hc (by dsimp only; rw [hb, hb₁, hb₂, hb₃]; omega)]
        rfl

theorem run_encode (text : List Char) : initial.run (encode text) = (initial, text) := by
  induction text with
  | nil => rfl
  | cons c text ih => rw [encode_cons, run_append, run_utf8EncodeChar, ih, List.singleton_append]

/-! ## Pieces -/

/-- The characters of pieces that come one after another. -/
def runs (d : Decoder) : List (List UInt8) → List (List Char)
  | [] => []
  | piece :: pieces => (d.run piece).2 :: runs (d.run piece).1 pieces

theorem flatten_runs (d : Decoder) (pieces : List (List UInt8)) :
    (d.runs pieces).flatten = (d.run pieces.flatten).2 := by
  induction pieces generalizing d with
  | nil => rfl
  | cons piece pieces ih => rw [runs, List.flatten_cons, ih, List.flatten_cons, run_append]

end Decoder

end Lib.Utf8

namespace Lib.Ecma

/-- `TextDecoder` with `stream: true`: a byte order mark in front of the first piece is dropped. -/
structure TextDecoder where
  decoder : Utf8.Decoder
  bomSeen : Bool

namespace TextDecoder

def initial : TextDecoder := ⟨Utf8.Decoder.initial, false⟩

def decode (t : TextDecoder) (bytes : List UInt8) : TextDecoder × List Char :=
  let (decoder, chars) := t.decoder.run bytes
  match chars with
  | [] => ({ t with decoder }, [])
  | c :: rest => ({ decoder, bomSeen := true }, if !t.bomSeen && c = BOM then rest else c :: rest)

/-- The texts of pieces that come one after another. -/
def decodes (t : TextDecoder) : List (List UInt8) → List (List Char)
  | [] => []
  | piece :: pieces => (t.decode piece).2 :: decodes (t.decode piece).1 pieces

/-- Nothing is dropped from a text that does not start with a byte order mark. -/
theorem decodes_eq {t : TextDecoder} {pieces : List (List UInt8)}
    (h : t.bomSeen = false → ((t.decoder.runs pieces).flatten).head? ≠ some BOM) :
    t.decodes pieces = t.decoder.runs pieces := by
  induction pieces generalizing t with
  | nil => rfl
  | cons piece pieces ih =>
    rw [decodes, Utf8.Decoder.runs]
    rw [Utf8.Decoder.runs, List.flatten_cons] at h
    rw [decode]
    generalize hrun : t.decoder.run piece = result at h
    obtain ⟨decoder, chars⟩ := result
    cases chars with
    | nil =>
      dsimp only at h ⊢
      rw [@ih ⟨decoder, t.bomSeen⟩ h]
    | cons c rest =>
      dsimp only at h ⊢
      have hkept : (!t.bomSeen && decide (c = BOM)) = false := by
        cases hseen : t.bomSeen with
        | true => rfl
        | false => exact decide_eq_false fun heq => h hseen (congrArg some heq)
      rw [hkept, @ih ⟨decoder, true⟩ fun hseen => (nomatch hseen), if_neg Bool.false_ne_true]

/-- **A text is decoded from any pieces of its bytes.** -/
theorem flatten_decodes {text : List Char} (h : text.head? ≠ some BOM) {pieces : List (List UInt8)}
    (hpieces : pieces.flatten = Utf8.encode text) : (initial.decodes pieces).flatten = text := by
  have htext : (Utf8.Decoder.initial.runs pieces).flatten = text := by
    rw [Utf8.Decoder.flatten_runs, hpieces, Utf8.Decoder.run_encode]
  rw [decodes_eq fun _ => by rw [show initial.decoder = Utf8.Decoder.initial from rfl, htext]; exact h]
  exact htext

end TextDecoder

end Lib.Ecma
