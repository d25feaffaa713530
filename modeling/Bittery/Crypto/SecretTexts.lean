/-
The texts of secrets: the checks of secret keys and recovery keys (`secret_key.rs`, `recovery.rs`) and
the Base32 reader of one-time password secrets (`totp.rs`).

The readers compare the low byte of a character with an alphabet of bytes. Beside each stands the grammar
that its comment gives, for comparison.
-/
import Bittery.Crypto.KeyDerivation
import Bittery.Lib.Base32
import Mathlib.Data.List.DropRight

namespace Bittery.CryptoCore

open Lib Srp6a

/-- A character cast to a byte. -/
def asByte (c : Char) : UInt8 := UInt8.ofNat c.toNat

def CHARSET : List UInt8 := "ABCDEFGHIJKLMNOPQRSTUVWXYZ234567".toList.map asByte

/-! ## Secret keys and recovery keys -/

/-- In bytes. -/
def segmentLength (segment : List Char) : Nat := (segment.map Char.utf8Size).sum

/-- The check of a key, for its prefix and the lengths of its segments. -/
def validateKey (versionPrefix : String) (expectedLengths : List Nat) (key : String) : Bool :=
  match key.toList.splitOn '-' with
  | [] => false
  | part :: segments =>
    segments.length = expectedLengths.length && part = versionPrefix.toList &&
      (segments.zip expectedLengths).all fun (segment, expectedLen) =>
        segmentLength segment = expectedLen && segment.all fun c => CHARSET.contains (asByte c)

def SECRET_KEY_PREFIX : String := "A3"

def SECRET_KEY_LENGTHS : List Nat := [6, 6, 5, 5, 5]

def validateSecretKey (secretKey : String) : Bool := validateKey SECRET_KEY_PREFIX SECRET_KEY_LENGTHS secretKey

def RECOVERY_KEY_PREFIX : String := "R1"

def RECOVERY_KEY_LENGTHS : List Nat := [6, 6, 5, 5, 5, 5, 5]

def validateRecoveryKey (recoveryKey : String) : Bool :=
  validateKey RECOVERY_KEY_PREFIX RECOVERY_KEY_LENGTHS recoveryKey

/-- `[A-Z2-7]` -/
def InAlphabet (c : Char) : Prop := ('A' ≤ c ∧ c ≤ 'Z') ∨ ('2' ≤ c ∧ c ≤ '7')

instance (c : Char) : Decidable (InAlphabet c) := inferInstanceAs (Decidable (_ ∨ _))

/-- The pattern that the comments give: the prefix, then segments of letters of the alphabet, dashes between. -/
def KeyPattern (versionPrefix : String) (lengths : List Nat) (key : String) : Prop :=
  ∃ segments : List (List Char), key.toList = ['-'].intercalate (versionPrefix.toList :: segments) ∧
    segments.map List.length = lengths ∧ ∀ segment ∈ segments, ∀ c ∈ segment, InAlphabet c

/-- A character past Latin-1 whose low byte is a letter of the alphabet. -/
def Disguised (c : Char) : Prop := 0xFF < c.toNat ∧ asByte c ∈ CHARSET

instance (c : Char) : Decidable (Disguised c) := inferInstanceAs (Decidable (_ ∧ _))

/-- Segments of the right lengths in bytes, of letters and of disguised characters, with one of the latter. -/
def DisguisedKey (versionPrefix : String) (lengths : List Nat) (key : String) : Prop :=
  ∃ segments : List (List Char), key.toList = ['-'].intercalate (versionPrefix.toList :: segments) ∧
    segments.map segmentLength = lengths ∧ (∀ segment ∈ segments, ∀ c ∈ segment, InAlphabet c ∨ Disguised c) ∧
      ∃ segment ∈ segments, ∃ c ∈ segment, Disguised c

/-- A letter of the alphabet and nothing else is an ASCII character that the check lets through. -/
theorem inAlphabet_iff (c : Char) : InAlphabet c ↔ c.toNat ≤ 0xFF ∧ asByte c ∈ CHARSET := by
  have hall : ∀ n < 256, (('A'.toNat ≤ n ∧ n ≤ 'Z'.toNat) ∨ ('2'.toNat ≤ n ∧ n ≤ '7'.toNat)) ↔
      UInt8.ofNat n ∈ CHARSET := by
    decide +kernel
  constructor
  · intro h
    have hle : c.toNat ≤ 0xFF := by
      rcases h with h | h
      · exact (show c.toNat ≤ 'Z'.toNat from h.2).trans (by decide)
      · exact (show c.toNat ≤ '7'.toNat from h.2).trans (by decide)
    exact ⟨hle, (hall c.toNat (by omega)).1 h⟩
  · rintro ⟨hle, h⟩
    exact (hall c.toNat (by omega)).2 h

theorem asByte_mem_iff (c : Char) : asByte c ∈ CHARSET ↔ InAlphabet c ∨ Disguised c := by
  rw [inAlphabet_iff, Disguised]
  rcases Nat.lt_or_ge 0xFF c.toNat with h | h
  · simp [h, Nat.not_le.2 h]
  · simp [h, Nat.not_lt.2 h]

theorem not_inAlphabet_of_disguised {c : Char} (h : Disguised c) : ¬ InAlphabet c := fun hin =>
  absurd ((inAlphabet_iff c).1 hin).1 (Nat.not_le.2 h.1)

theorem utf8Size_of_inAlphabet {c : Char} (h : InAlphabet c) : c.utf8Size = 1 := by
  have hle : c.val.toNat ≤ 0x7F := by
    rcases h with h | h
    · exact (show c.val.toNat ≤ 'Z'.toNat from h.2).trans (by decide)
    · exact (show c.val.toNat ≤ '7'.toNat from h.2).trans (by decide)
  exact Char.utf8Size_eq_one_iff.2 hle

theorem segmentLength_of_inAlphabet {segment : List Char} (h : ∀ c ∈ segment, InAlphabet c) :
    segmentLength segment = segment.length := by
  induction segment with
  | nil => rfl
  | cons c segment ih =>
    rw [segmentLength, List.map_cons, List.sum_cons, utf8Size_of_inAlphabet (h c List.mem_cons_self)]
    have hrest := ih fun c hc => h c (List.mem_cons_of_mem _ hc)
    rw [segmentLength] at hrest
    rw [hrest, List.length_cons]
    omega

theorem ne_dash_of_mem {c : Char} (h : InAlphabet c ∨ Disguised c) : c ≠ '-' := by
  rintro rfl
  exact absurd h (by decide)

theorem zip_all_iff (segments : List (List Char)) (lengths : List Nat) :
    (segments.length = lengths.length ∧ ((segments.zip lengths).all fun (segment, expectedLen) =>
        segmentLength segment = expectedLen && segment.all fun c => CHARSET.contains (asByte c)) = true) ↔
      segments.map segmentLength = lengths ∧ ∀ segment ∈ segments, ∀ c ∈ segment, InAlphabet c ∨ Disguised c := by
  induction segments generalizing lengths with
  | nil => cases lengths <;> simp
  | cons segment segments ih =>
    cases lengths with
    | nil => simp
    | cons expectedLen lengths =>
      have hsegment : (segment.all fun c => CHARSET.contains (asByte c)) = true ↔
          ∀ c ∈ segment, InAlphabet c ∨ Disguised c := by
        simp only [List.all_eq_true, List.contains_iff_mem, asByte_mem_iff]
      simp only [List.length_cons, Nat.add_right_cancel_iff, List.zip_cons_cons, List.all_cons, Bool.and_eq_true,
        decide_eq_true_eq, hsegment, List.map_cons, List.cons.injEq, List.forall_mem_cons]
      have hrest := ih lengths
      tauto

theorem splitOn_of_segments {versionPrefix : String} (hdash : '-' ∉ versionPrefix.toList) {key : String}
    {segments : List (List Char)} (hkey : key.toList = ['-'].intercalate (versionPrefix.toList :: segments))
    (hall : ∀ segment ∈ segments, ∀ c ∈ segment, InAlphabet c ∨ Disguised c) :
    key.toList.splitOn '-' = versionPrefix.toList :: segments := by
  rw [hkey]
  refine List.splitOn_intercalate _ (fun segment hsegment hmem => ?_) (List.cons_ne_nil _ _)
  rcases List.mem_cons.1 hsegment with rfl | hsegment
  · exact hdash hmem
  · exact ne_dash_of_mem (hall segment hsegment _ hmem) rfl

/-- What passes is a key of letters and of disguised characters. -/
theorem validateKey_iff {versionPrefix : String} (hdash : '-' ∉ versionPrefix.toList) (lengths : List Nat) (key : String) :
    validateKey versionPrefix lengths key = true ↔
      ∃ segments : List (List Char), key.toList = ['-'].intercalate (versionPrefix.toList :: segments) ∧
        segments.map segmentLength = lengths ∧ ∀ segment ∈ segments, ∀ c ∈ segment, InAlphabet c ∨ Disguised c := by
  constructor
  · intro h
    have hkey : ['-'].intercalate (key.toList.splitOn '-') = key.toList := List.intercalate_splitOn '-'
    unfold validateKey at h
    cases hsplit : key.toList.splitOn '-' with
    | nil => exact absurd hsplit (List.splitOn_ne_nil _ _)
    | cons part segments =>
      rw [hsplit] at h hkey
      simp only [Bool.and_eq_true, decide_eq_true_eq, and_assoc] at h
      obtain ⟨hlength, hpart, hall⟩ := h
      exact ⟨segments, hpart ▸ hkey.symm, (zip_all_iff segments lengths).1 ⟨hlength, hall⟩⟩
  · rintro ⟨segments, hkey, hsegments⟩
    obtain ⟨hlength, hall⟩ := (zip_all_iff segments lengths).2 hsegments
    unfold validateKey
    rw [splitOn_of_segments hdash hkey hsegments.2]
    simp only [hlength, decide_true, Bool.true_and]
    exact hall

theorem segments_unique {versionPrefix : String} (hdash : '-' ∉ versionPrefix.toList) {key : String}
    {segments segments' : List (List Char)} (hkey : key.toList = ['-'].intercalate (versionPrefix.toList :: segments))
    (hkey' : key.toList = ['-'].intercalate (versionPrefix.toList :: segments'))
    (hall : ∀ segment ∈ segments, ∀ c ∈ segment, InAlphabet c ∨ Disguised c)
    (hall' : ∀ segment ∈ segments', ∀ c ∈ segment, InAlphabet c ∨ Disguised c) : segments = segments' :=
  (List.cons.inj ((splitOn_of_segments hdash hkey hall).symm.trans (splitOn_of_segments hdash hkey' hall'))).2

theorem map_segmentLength {segments : List (List Char)} (h : ∀ segment ∈ segments, ∀ c ∈ segment, InAlphabet c) :
    segments.map segmentLength = segments.map List.length :=
  List.map_congr_left fun segment hsegment => segmentLength_of_inAlphabet (h segment hsegment)

/-- The check is that of the pattern, except for the keys that have a disguised character. -/
theorem validateKey_pattern_iff {versionPrefix : String} (hdash : '-' ∉ versionPrefix.toList) (lengths : List Nat)
    (key : String) :
    (validateKey versionPrefix lengths key = true ↔ KeyPattern versionPrefix lengths key) ↔
      ¬ DisguisedKey versionPrefix lengths key := by
  rw [validateKey_iff hdash]
  constructor
  · rintro h ⟨segments, hkey, hlengths, hall, segment, hsegment, c, hc, hdisguised⟩
    obtain ⟨segments', hkey', -, hall'⟩ := h.1 ⟨segments, hkey, hlengths, hall⟩
    obtain rfl := segments_unique hdash hkey hkey' hall fun s hs c hc => .inl (hall' s hs c hc)
    exact not_inAlphabet_of_disguised hdisguised (hall' segment hsegment c hc)
  · intro hnot
    constructor
    · rintro ⟨segments, hkey, hlengths, hall⟩
      have hletters : ∀ segment ∈ segments, ∀ c ∈ segment, InAlphabet c := fun segment hsegment c hc =>
        (hall segment hsegment c hc).resolve_right fun hdisguised =>
          hnot ⟨segments, hkey, hlengths, hall, segment, hsegment, c, hc, hdisguised⟩
      exact ⟨segments, hkey, map_segmentLength hletters ▸ hlengths, hletters⟩
    · rintro ⟨segments, hkey, hlengths, hletters⟩
      exact ⟨segments, hkey, (map_segmentLength hletters).trans hlengths, fun s hs c hc => .inl (hletters s hs c hc)⟩

/-! ### One spelling for each key -/

/-- The characters of a key. -/
def keyCharacters (key : String) : List Char := key.toList.filter (· ≠ '-')

theorem append_inj_of_segmentLength {a b s t : List Char} (h : a ++ s = b ++ t) (hlength : segmentLength a = segmentLength b) :
    a = b ∧ s = t := by
  induction a generalizing b with
  | nil =>
    cases b with
    | nil => exact ⟨rfl, h⟩
    | cons c b =>
      have := c.utf8Size_pos
      simp [segmentLength] at hlength
      omega
  | cons c a ih =>
    cases b with
    | nil =>
      have := c.utf8Size_pos
      simp [segmentLength] at hlength
      omega
    | cons c' b =>
      simp only [List.cons_append, List.cons.injEq] at h
      obtain ⟨rfl, h⟩ := h
      simp only [segmentLength, List.map_cons, List.sum_cons, Nat.add_left_cancel_iff] at hlength
      obtain ⟨rfl, rfl⟩ := ih h hlength
      exact ⟨rfl, rfl⟩

theorem flatten_inj_of_segmentLength {segments segments' : List (List Char)} (h : segments.flatten = segments'.flatten)
    (hlength : segments.map segmentLength = segments'.map segmentLength) : segments = segments' := by
  induction segments generalizing segments' with
  | nil => cases segments' <;> simp_all
  | cons segment segments ih =>
    cases segments' with
    | nil => simp at hlength
    | cons segment' segments' =>
      simp only [List.map_cons, List.cons.injEq] at hlength
      obtain ⟨rfl, hrest⟩ := append_inj_of_segmentLength (by simpa using h) hlength.1
      rw [ih hrest hlength.2]

theorem filter_intercalate (l : List (List Char)) (a : List Char) (ha : '-' ∉ a) (hl : ∀ b ∈ l, '-' ∉ b) :
    (['-'].intercalate (a :: l)).filter (· ≠ '-') = a ++ l.flatten := by
  have hkeep : ∀ b : List Char, '-' ∉ b → b.filter (· ≠ '-') = b := fun b hb =>
    List.filter_eq_self.2 fun c hc => decide_eq_true fun heq => hb (heq ▸ hc)
  induction l generalizing a with
  | nil => simpa [List.intercalate] using hkeep a ha
  | cons b l ih =>
    rw [List.forall_mem_cons] at hl
    rw [List.intercalate_cons_cons, List.append_assoc, List.filter_append, List.filter_append, ih b hl.1 hl.2, hkeep a ha]
    rfl

theorem keyCharacters_eq {versionPrefix : String} (hdash : '-' ∉ versionPrefix.toList) {key : String}
    {segments : List (List Char)} (hkey : key.toList = ['-'].intercalate (versionPrefix.toList :: segments))
    (hall : ∀ segment ∈ segments, ∀ c ∈ segment, InAlphabet c ∨ Disguised c) :
    keyCharacters key = versionPrefix.toList ++ segments.flatten := by
  rw [keyCharacters, hkey]
  exact filter_intercalate _ _ hdash fun segment hsegment hmem => ne_dash_of_mem (hall segment hsegment _ hmem) rfl

/-- Keys that pass and have the same characters are spelled alike. -/
theorem eq_of_keyCharacters {versionPrefix : String} (hdash : '-' ∉ versionPrefix.toList) {lengths : List Nat}
    {key key' : String} (h : validateKey versionPrefix lengths key = true) (h' : validateKey versionPrefix lengths key' = true)
    (heq : keyCharacters key = keyCharacters key') : key = key' := by
  obtain ⟨segments, hkey, hlengths, hall⟩ := (validateKey_iff hdash lengths key).1 h
  obtain ⟨segments', hkey', hlengths', hall'⟩ := (validateKey_iff hdash lengths key').1 h'
  rw [keyCharacters_eq hdash hkey hall, keyCharacters_eq hdash hkey' hall'] at heq
  obtain rfl := flatten_inj_of_segmentLength (List.append_cancel_left heq) (hlengths.trans hlengths'.symm)
  exact String.toList_injective (hkey.trans hkey'.symm)

/-! ## One-time password secrets -/

inductive TotpFailure
  | error (e : CoreError)
  | panicked
deriving DecidableEq, Repr

def BASE32_ALPHABET : List UInt8 := "ABCDEFGHIJKLMNOPQRSTUVWXYZ234567".toList.map asByte

/-- What the reader keeps of a text. -/
def sanitized (input : String) : List Char :=
  (input.toList.filter fun c => !isWhitespace c && c ≠ '=').map Char.toUpper

structure Base32Loop where
  output : List UInt8
  buffer : UInt32
  bitsLeft : Nat
  outputIndex : Nat
deriving DecidableEq, Repr

def Base32Loop.step (loop : Base32Loop) (c : Char) : Except TotpFailure Base32Loop :=
  match BASE32_ALPHABET.idxOf? (asByte c) with
  | none => .error (.error (.invalidInput ("Invalid base32 character: " ++ String.singleton c)))
  | some value =>
    let buffer := loop.buffer <<< 5 ||| UInt32.ofNat value
    let bitsLeft := loop.bitsLeft + 5
    if 8 ≤ bitsLeft then
      let bitsLeft := bitsLeft - 8
      if loop.outputIndex < loop.output.length then
        .ok { output := loop.output.set loop.outputIndex (buffer >>> UInt32.ofNat bitsLeft &&& 0xFF).toUInt8,
              buffer, bitsLeft, outputIndex := loop.outputIndex + 1 }
      else .error .panicked
    else .ok { loop with buffer, bitsLeft }

def base32Decode (input : String) : Except TotpFailure (List UInt8) :=
  let sanitized := sanitized input
  if sanitized = [] then .ok []
  else
    let output := List.replicate (segmentLength sanitized * 5 / 8) 0
    (sanitized.foldlM Base32Loop.step { output, buffer := 0, bitsLeft := 0, outputIndex := 0 }).map (·.output)

/-- The digits of a text: white space is dropped everywhere, padding at the end. -/
def base32Digits (input : String) : List Char := (input.toList.filter fun c => !isWhitespace c).rdropWhile (· = '=')

/-- The decoding of RFC 4648, for a text of digits of either case. -/
def base32Grammar (input : String) : Option (List UInt8) := ((base32Digits input).mapM Base32.value).map Base32.decode

/-- The characters that the reader looks at. -/
def base32Kept (input : String) : List Char := input.toList.filter fun c => !isWhitespace c && c ≠ '='

/-- A text of digits and disguised characters, with one of the latter or padding before its end. -/
def Misread (input : String) : Prop :=
  (∀ c ∈ base32Kept input, (Base32.value c).isSome = true ∨ Disguised c) ∧
    ((∃ c ∈ base32Kept input, Disguised c) ∨ '=' ∈ base32Digits input)

/-- The bytes of the text, if it is one, and otherwise an error. -/
def Decodes (input : String) : Prop :=
  match base32Grammar input with
  | some bytes => base32Decode input = .ok bytes
  | none => ∃ e, base32Decode input = .error (.error e)

/-! ### What the reader makes of digits -/

/-- The digit that the reader takes a byte for. -/
def position (c : Char) : Option Nat := BASE32_ALPHABET.idxOf? (asByte c)

theorem position_lt {c : Char} {v : Nat} (h : position c = some v) : v < 32 := by
  have hall : ∀ n < 256, (BASE32_ALPHABET.idxOf? (UInt8.ofNat n)).all (· < 32) = true := by decide +kernel
  have hc := hall (asByte c).toNat (asByte c).toNat_lt
  rw [UInt8.ofNat_toNat] at hc
  rw [position] at h
  simpa [h] using hc

theorem position_toUpper_of_le {c : Char} (h : c.toNat ≤ 0xFF) : position c.toUpper = Base32.value c := by
  have hall : ∀ n < 256, position (Char.ofNat n).toUpper = Base32.value (Char.ofNat n) := by decide +kernel
  have hc := hall c.toNat (by omega)
  rwa [Char.ofNat_toNat] at hc

theorem toUpper_of_gt {c : Char} (h : 0xFF < c.toNat) : c.toUpper = c := by
  refine dif_neg fun hz => ?_
  have hle : c.toNat ≤ 'z'.toNat := hz.2
  have hz : 'z'.toNat = 122 := rfl
  omega

theorem value_of_gt {c : Char} (h : 0xFF < c.toNat) : Base32.value c = none := by
  rw [Base32.value, if_neg (by omega), if_neg (by omega), if_neg (by omega)]

theorem le_of_value {c : Char} (h : (Base32.value c).isSome = true) : c.toNat ≤ 0xFF := by
  by_contra hgt
  rw [value_of_gt (by omega)] at h
  cases h

theorem not_value_of_disguised {c : Char} (h : Disguised c) : Base32.value c = none := value_of_gt h.1

/-- A character is taken for a digit if it is one, or if its low byte is a letter. -/
theorem position_isSome_iff (c : Char) :
    (position c.toUpper).isSome = true ↔ (Base32.value c).isSome = true ∨ Disguised c := by
  rcases Nat.lt_or_ge 0xFF c.toNat with h | h
  · have hmem : (position c).isSome = true ↔ asByte c ∈ CHARSET := by
      rw [position, List.isSome_idxOf?]
      rfl
    simp [toUpper_of_gt h, value_of_gt h, Disguised, h, hmem]
  · simp [position_toUpper_of_le h, Disguised, Nat.not_lt.2 h]

namespace Base32Loop

/-- What the loop holds after some digits, in an output with room for more. -/
structure Read (room : Nat) (values : List Nat) (loop : Base32Loop) : Prop where
  output : loop.output = Base32.decode values ++ List.replicate (room - 5 * values.length / 8) 0
  outputIndex : loop.outputIndex = 5 * values.length / 8
  bitsLeft : loop.bitsLeft = 5 * values.length % 8
  buffer : loop.buffer.toNat = Base32.number values % 2 ^ 32

theorem buffer_step {buffer : UInt32} {n v : Nat} (h : buffer.toNat = n % 2 ^ 32) (hv : v < 32) :
    (buffer <<< 5 ||| UInt32.ofNat v).toNat = (n * 32 + v) % 2 ^ 32 := by
  have hshift : (buffer <<< 5).toNat = (n % 2 ^ 27) <<< 5 := by
    rw [UInt32.toNat_shiftLeft, h, show (5 : UInt32).toNat % 32 = 5 from rfl, Nat.shiftLeft_eq, Nat.shiftLeft_eq]
    omega
  rw [UInt32.toNat_or, hshift, UInt32.toNat_ofNat_of_lt' (Nat.lt_trans hv (by decide)), ← Nat.shiftLeft_add_eq_or_of_lt hv, Nat.shiftLeft_eq]
  omega

theorem byte_of_buffer {buffer : UInt32} {n k : Nat} (h : buffer.toNat = n % 2 ^ 32) (hk : k ≤ 4) :
    (buffer >>> UInt32.ofNat k &&& 0xFF).toUInt8 = UInt8.ofNat (n / 2 ^ k) := by
  have hbits : n % 2 ^ 32 / 2 ^ k = n / 2 ^ k % 2 ^ (32 - k) := by
    rw [show (2 : Nat) ^ 32 = 2 ^ k * 2 ^ (32 - k) by rw [← Nat.pow_add, show k + (32 - k) = 32 by omega],
      Nat.mod_mul_right_div_self]
  have hdvd : (2 : Nat) ^ 8 ∣ 2 ^ (32 - k) := Nat.pow_dvd_pow 2 (by omega)
  rw [← UInt8.toNat_inj, UInt32.toNat_toUInt8, UInt32.toNat_and, UInt32.toNat_shiftRight, h,
    UInt32.toNat_ofNat_of_lt' (Nat.lt_of_le_of_lt hk (by decide)), show (0xFF : UInt32).toNat = 2 ^ 8 - 1 from rfl,
    Nat.and_two_pow_sub_one_eq_mod, Nat.shiftRight_eq_div_pow, UInt8.toNat_ofNat',
    Nat.mod_eq_of_lt (show k < 32 by omega), hbits, Nat.mod_mod, Nat.mod_mod_of_dvd _ hdvd]

theorem Read.step {room : Nat} {values : List Nat} {loop : Base32Loop} (h : Read room values loop) {c : Char} {v : Nat}
    (hc : position c = some v) (hroom : 5 * (values.length + 1) / 8 ≤ room) :
    ∃ loop', loop.step c = .ok loop' ∧ Read room (values ++ [v]) loop' := by
  have hv := position_lt hc
  have hbuffer : (loop.buffer <<< 5 ||| UInt32.ofNat v).toNat = Base32.number (values ++ [v]) % 2 ^ 32 := by
    rw [Base32.number_concat]
    exact buffer_step h.buffer hv
  have hlength : (values ++ [v]).length = values.length + 1 := by simp
  unfold position at hc
  unfold Base32Loop.step
  rw [hc]
  simp only
  split
  · next hbits =>
    -- the digit completes a byte
    rw [h.bitsLeft] at hbits
    have hinside : loop.outputIndex < loop.output.length := by
      rw [h.outputIndex, h.output, List.length_append, Base32.length_decode, List.length_replicate]
      omega
    rw [if_pos hinside]
    refine ⟨_, rfl, ?_, ?_, ?_, hbuffer⟩
    · have hroom' : room - 5 * values.length / 8 = (room - 5 * (values ++ [v]).length / 8) + 1 := by
        rw [hlength]
        omega
      simp only [h.output, h.outputIndex, h.bitsLeft]
      rw [List.set_append_right _ _ (by rw [Base32.length_decode]), Base32.length_decode, Nat.sub_self, hroom',
        List.replicate_succ, List.set_cons_zero, Base32.decode_concat_of_ge hv hbits, List.append_assoc,
        byte_of_buffer hbuffer (by omega)]
      rfl
    · simp only [h.outputIndex, hlength]
      omega
    · simp only [h.bitsLeft, hlength]
      omega
  · next hbits =>
    -- the bits wait for more
    rw [h.bitsLeft] at hbits
    refine ⟨_, rfl, ?_, ?_, ?_, hbuffer⟩
    · simp only [h.output, hlength]
      rw [Base32.decode_concat_of_lt hv (by omega), show 5 * (values.length + 1) / 8 = 5 * values.length / 8 by omega]
    · simp only [h.outputIndex, hlength]
      omega
    · simp only [h.bitsLeft, hlength]
      omega

/-- The loop reads every text of positions, and ends in an error at what has none. -/
theorem Read.run {room : Nat} {values : List Nat} {loop : Base32Loop} (h : Read room values loop) (l : List Char)
    (hroom : 5 * (values.length + l.length) / 8 ≤ room) :
    match l.mapM position with
    | some rest => ∃ loop', l.foldlM Base32Loop.step loop = .ok loop' ∧ Read room (values ++ rest) loop'
    | none => ∃ e, l.foldlM Base32Loop.step loop = .error (.error e) := by
  induction l generalizing values loop with
  | nil => exact ⟨loop, rfl, (List.append_nil values).symm ▸ h⟩
  | cons c l ih =>
    rw [List.length_cons] at hroom
    rw [List.mapM_cons]
    cases hc : position c with
    | none =>
      have hstep : loop.step c =
          .error (.error (.invalidInput ("Invalid base32 character: " ++ String.singleton c))) := by
        rw [Base32Loop.step, show BASE32_ALPHABET.idxOf? (asByte c) = none from hc]
      exact ⟨_, by rw [List.foldlM_cons, hstep]; rfl⟩
    | some v =>
      obtain ⟨loop', hstep, hread⟩ := h.step hc (by omega)
      have hrest := ih hread (by simp only [List.length_append, List.length_singleton]; omega)
      simp only [Option.bind_eq_bind, Option.bind_some, List.foldlM_cons, hstep]
      cases hl : l.mapM position with
      | none => rwa [hl] at hrest
      | some rest =>
        rw [hl] at hrest
        simpa [bind, Except.bind] using hrest

end Base32Loop

theorem mapM_isSome_iff {α β : Type} (f : α → Option β) (l : List α) :
    (l.mapM f).isSome = true ↔ ∀ a ∈ l, (f a).isSome = true := by
  induction l with
  | nil => simp
  | cons a l ih => cases hf : f a <;> cases hl : l.mapM f <;> simp_all [List.mapM_cons]

theorem exists_mapM {α β : Type} {f : α → Option β} {l : List α} (h : ∀ a ∈ l, (f a).isSome = true) :
    ∃ values, l.mapM f = some values :=
  Option.isSome_iff_exists.1 ((mapM_isSome_iff f l).2 h)

theorem mapM_congr_mem {α β : Type} {f g : α → Option β} {l : List α} (h : ∀ a ∈ l, f a = g a) : l.mapM f = l.mapM g := by
  induction l with
  | nil => rfl
  | cons a l ih =>
    rw [List.mapM_cons, List.mapM_cons, h a List.mem_cons_self, ih fun b hb => h b (List.mem_cons_of_mem _ hb)]

theorem length_of_mapM {α β : Type} {f : α → Option β} {l : List α} {values : List β} (h : l.mapM f = some values) :
    values.length = l.length := by
  induction l generalizing values with
  | nil => simp_all
  | cons a l ih =>
    rw [List.mapM_cons] at h
    cases hf : f a with
    | none => simp [hf] at h
    | some b =>
      cases hl : l.mapM f with
      | none => simp [hf, hl] at h
      | some rest =>
        simp only [hf, hl, Option.bind_eq_bind, Option.bind_some, Option.pure_def, Option.some.injEq] at h
        rw [← h, List.length_cons, List.length_cons, ih hl]

theorem length_le_segmentLength (segment : List Char) : segment.length ≤ segmentLength segment := by
  induction segment with
  | nil => exact Nat.le_refl _
  | cons c segment ih =>
    have hpos := c.utf8Size_pos
    simp only [segmentLength, List.map_cons, List.sum_cons, List.length_cons] at ih ⊢
    omega

/-- The reader's answer: the bytes of the digits it takes, and zeros for bytes that it had no digits for. -/
theorem base32Decode_eq (input : String) :
    match (sanitized input).mapM position with
    | some values => base32Decode input =
        .ok (Base32.decode values ++ List.replicate (segmentLength (sanitized input) * 5 / 8 - 5 * values.length / 8) 0)
    | none => ∃ e, base32Decode input = .error (.error e) := by
  by_cases hempty : sanitized input = []
  · simp [base32Decode, hempty, segmentLength]
  · have hstart : Base32Loop.Read (segmentLength (sanitized input) * 5 / 8) []
        { output := List.replicate (segmentLength (sanitized input) * 5 / 8) 0, buffer := 0, bitsLeft := 0,
          outputIndex := 0 } := ⟨by simp, rfl, rfl, rfl⟩
    have hle := length_le_segmentLength (sanitized input)
    have hrun := hstart.run (sanitized input) (by simp only [List.length_nil]; omega)
    cases hvalues : (sanitized input).mapM position with
    | none =>
      rw [hvalues] at hrun
      obtain ⟨e, hrun⟩ := hrun
      exact ⟨e, by simp [base32Decode, hempty, hrun, Except.map]⟩
    | some values =>
      rw [hvalues] at hrun
      obtain ⟨loop, hrun, hread⟩ := hrun
      simp only [base32Decode, hempty, if_false, hrun, Except.map, hread.output, List.nil_append]

theorem text_eq (input : String) : ∃ padding : List Char,
    (input.toList.filter fun c => !isWhitespace c) = base32Digits input ++ padding ∧ ∀ c ∈ padding, c = '=' :=
  ⟨_, (List.rdropWhile_append_rtakeWhile ..).symm, fun _ hc => by simpa using List.mem_rtakeWhile_imp hc⟩

theorem base32Kept_eq (input : String) : base32Kept input = (base32Digits input).filter (· ≠ '=') := by
  obtain ⟨padding, htext, hpadding⟩ := text_eq input
  have hkept : base32Kept input = (input.toList.filter fun c => !isWhitespace c).filter (· ≠ '=') := by
    rw [base32Kept, List.filter_filter]
    exact List.filter_congr fun c _ => by simp [Bool.and_comm]
  have hnone : padding.filter (· ≠ '=') = [] := List.filter_eq_nil_iff.2 fun c hc => by simp [hpadding c hc]
  rw [hkept, htext, List.filter_append, hnone, List.append_nil]

theorem mapM_sanitized (input : String) :
    (sanitized input).mapM position = (base32Kept input).mapM fun c => position c.toUpper := by
  rw [sanitized, List.mapM_map]
  rfl

theorem segmentLength_sanitized {input : String} (h : ∀ c ∈ base32Kept input, (Base32.value c).isSome = true) :
    segmentLength (sanitized input) = (sanitized input).length := by
  have hone : ∀ c ∈ sanitized input, c.utf8Size = 1 := fun c hc => by
    rw [sanitized, List.mem_map] at hc
    obtain ⟨c, hc, rfl⟩ := hc
    have hall : ∀ n < 256, (Base32.value (Char.ofNat n)).isSome = true → (Char.ofNat n).toUpper.utf8Size = 1 := by
      decide +kernel
    have hvalue := h c hc
    have hsize := hall c.toNat (Nat.lt_succ_of_le (le_of_value hvalue))
    rw [Char.ofNat_toNat] at hsize
    exact hsize hvalue
  generalize sanitized input = l at hone
  induction l with
  | nil => rfl
  | cons c l ih =>
    have hrest := ih fun c hc => hone c (List.mem_cons_of_mem _ hc)
    rw [segmentLength] at hrest ⊢
    rw [List.map_cons, List.sum_cons, hone c List.mem_cons_self, hrest, List.length_cons]
    omega

theorem mem_base32Digits {input : String} {c : Char} (h : c ∈ base32Kept input) : c ∈ base32Digits input :=
  (List.mem_filter.1 (base32Kept_eq input ▸ h)).1

theorem base32Grammar_none {input : String} {c : Char} (hc : c ∈ base32Digits input) (hvalue : Base32.value c = none) :
    base32Grammar input = none := by
  have hnot : ¬ ((base32Digits input).mapM Base32.value).isSome = true := fun h => by
    have hsome := (mapM_isSome_iff _ _).1 h c hc
    rw [hvalue] at hsome
    cases hsome
  rw [base32Grammar, Option.not_isSome_iff_eq_none.1 hnot]
  rfl

/-- The reader answers what the grammar does, except for the texts it misreads. -/
theorem decodes_iff (input : String) : Decodes input ↔ ¬ Misread input := by
  have hanswer := base32Decode_eq input
  rw [mapM_sanitized] at hanswer
  by_cases htaken : ∀ c ∈ base32Kept input, (Base32.value c).isSome = true ∨ Disguised c
  · -- every character is taken for a digit
    have hpositions : ∀ c ∈ base32Kept input, (position c.toUpper).isSome = true := fun c hc =>
      (position_isSome_iff c).2 (htaken c hc)
    obtain ⟨values, hvalues⟩ := exists_mapM hpositions
    rw [hvalues] at hanswer
    simp only at hanswer
    by_cases hmisread : (∃ c ∈ base32Kept input, Disguised c) ∨ '=' ∈ base32Digits input
    · have hnone : base32Grammar input = none := by
        rcases hmisread with ⟨c, hc, hdisguised⟩ | hpadding
        · exact base32Grammar_none (mem_base32Digits hc) (not_value_of_disguised hdisguised)
        · exact base32Grammar_none hpadding (by decide)
      have hmisread : Misread input := ⟨htaken, hmisread⟩
      simp [Decodes, hnone, hanswer, hmisread]
    · rw [not_or] at hmisread
      have hdigits : ∀ c ∈ base32Kept input, (Base32.value c).isSome = true := fun c hc =>
        (htaken c hc).resolve_right fun hdisguised => hmisread.1 ⟨c, hc, hdisguised⟩
      have hkept : base32Kept input = base32Digits input := by
        rw [base32Kept_eq]
        exact List.filter_eq_self.2 fun c hc => decide_eq_true fun heq => hmisread.2 (heq ▸ hc)
      have hread : (base32Kept input).mapM (fun c => position c.toUpper) = (base32Kept input).mapM Base32.value :=
        mapM_congr_mem fun c hc => position_toUpper_of_le (le_of_value (hdigits c hc))
      have hgrammar : base32Grammar input = some (Base32.decode values) := by
        rw [base32Grammar, ← hkept, ← hread, hvalues]
        rfl
      have hroom : segmentLength (sanitized input) * 5 / 8 - 5 * values.length / 8 = 0 := by
        rw [segmentLength_sanitized hdigits, length_of_mapM hvalues, sanitized, List.length_map, ← base32Kept]
        omega
      rw [hroom, List.replicate_zero, List.append_nil] at hanswer
      simp [Decodes, hgrammar, hanswer, Misread, hmisread]
  · -- a character is refused, by both
    have hnone : (base32Kept input).mapM (fun c => position c.toUpper) = none :=
      Option.not_isSome_iff_eq_none.1 fun h => htaken fun c hc =>
        (position_isSome_iff c).1 ((mapM_isSome_iff _ _).1 h c hc)
    rw [hnone] at hanswer
    have hgrammar : base32Grammar input = none := by
      rw [not_forall] at htaken
      obtain ⟨c, hc⟩ := htaken
      rw [Classical.not_imp, not_or, Option.not_isSome_iff_eq_none] at hc
      exact base32Grammar_none (mem_base32Digits hc.1) hc.2.1
    simp only [Decodes, hgrammar, Misread, htaken, false_and, not_false_iff, iff_true]
    exact hanswer

/-! ## What the readers accept -/

/-- **The texts that the readers judge as their grammars do.** A check of a key lets through what its pattern
describes exactly if no character of the key is disguised, and keys that it lets through have one spelling each;
a secret is read as its digits exactly if no disguised character and no inner padding is passed over. -/
theorem secret_texts_iff (text : String) :
    ((validateSecretKey text = true ↔ KeyPattern SECRET_KEY_PREFIX SECRET_KEY_LENGTHS text) ↔
      ¬ DisguisedKey SECRET_KEY_PREFIX SECRET_KEY_LENGTHS text) ∧
    ((validateRecoveryKey text = true ↔ KeyPattern RECOVERY_KEY_PREFIX RECOVERY_KEY_LENGTHS text) ↔
      ¬ DisguisedKey RECOVERY_KEY_PREFIX RECOVERY_KEY_LENGTHS text) ∧
    (∀ other, keyCharacters text = keyCharacters other →
      (validateSecretKey text = true → validateSecretKey other = true → text = other) ∧
      (validateRecoveryKey text = true → validateRecoveryKey other = true → text = other)) ∧
    (Decodes text ↔ ¬ Misread text) := by
  have hsecret : '-' ∉ SECRET_KEY_PREFIX.toList := by decide
  have hrecovery : '-' ∉ RECOVERY_KEY_PREFIX.toList := by decide
  exact ⟨validateKey_pattern_iff hsecret _ _, validateKey_pattern_iff hrecovery _ _,
    fun _ heq => ⟨fun h h' => eq_of_keyCharacters hsecret h h' heq, fun h h' => eq_of_keyCharacters hrecovery h h' heq⟩,
    decodes_iff text⟩

theorem disguisedKey_of_all {versionPrefix : String} {lengths : List Nat} {key : String} (segments : List (List Char))
    (hkey : key.toList = ['-'].intercalate (versionPrefix.toList :: segments))
    (hlengths : segments.map segmentLength = lengths)
    (hall : (segments.all fun segment => segment.all fun c => decide (InAlphabet c ∨ Disguised c)) = true)
    (hany : (segments.any fun segment => segment.any fun c => decide (Disguised c)) = true) :
    DisguisedKey versionPrefix lengths key := by
  simp only [List.all_eq_true, List.any_eq_true, decide_eq_true_eq] at hall hany
  exact ⟨segments, hkey, hlengths, hall, hany⟩

/-- Three letters with strokes pass for six letters, one passes for a digit, and padding is passed over. -/
theorem disguised_texts_accepted :
    (validateSecretKey "A3-ŁŁŁ-ABCDEF-ABCDE-ABCDE-ABCDE" = true ∧
      ¬ KeyPattern SECRET_KEY_PREFIX SECRET_KEY_LENGTHS "A3-ŁŁŁ-ABCDEF-ABCDE-ABCDE-ABCDE") ∧
    (validateRecoveryKey "R1-ŁŁŁ-ABCDEF-ABCDE-ABCDE-ABCDE-ABCDE-ABCDE" = true ∧
      ¬ KeyPattern RECOVERY_KEY_PREFIX RECOVERY_KEY_LENGTHS "R1-ŁŁŁ-ABCDEF-ABCDE-ABCDE-ABCDE-ABCDE-ABCDE") ∧
    base32Decode "ŁA" = .ok [0] ∧ base32Grammar "ŁA" = none ∧
    base32Decode "A=A" = .ok [0] ∧ base32Grammar "A=A" = none := by
  have hsecret : DisguisedKey SECRET_KEY_PREFIX SECRET_KEY_LENGTHS "A3-ŁŁŁ-ABCDEF-ABCDE-ABCDE-ABCDE" :=
    disguisedKey_of_all ["ŁŁŁ".toList, "ABCDEF".toList, "ABCDE".toList, "ABCDE".toList, "ABCDE".toList]
      (by decide +kernel) (by decide +kernel) (by decide +kernel) (by decide +kernel)
  have hrecovery : DisguisedKey RECOVERY_KEY_PREFIX RECOVERY_KEY_LENGTHS "R1-ŁŁŁ-ABCDEF-ABCDE-ABCDE-ABCDE-ABCDE-ABCDE" :=
    disguisedKey_of_all
      ["ŁŁŁ".toList, "ABCDEF".toList, "ABCDE".toList, "ABCDE".toList, "ABCDE".toList, "ABCDE".toList, "ABCDE".toList]
      (by decide +kernel) (by decide +kernel) (by decide +kernel) (by decide +kernel)
  have hpass : validateSecretKey "A3-ŁŁŁ-ABCDEF-ABCDE-ABCDE-ABCDE" = true := by decide +kernel
  have hpass' : validateRecoveryKey "R1-ŁŁŁ-ABCDEF-ABCDE-ABCDE-ABCDE-ABCDE-ABCDE" = true := by decide +kernel
  exact ⟨⟨hpass, fun hpattern => (validateKey_pattern_iff (by decide) _ _).1 (iff_of_true hpass hpattern) hsecret⟩,
    ⟨hpass', fun hpattern => (validateKey_pattern_iff (by decide) _ _).1 (iff_of_true hpass' hpattern) hrecovery⟩,
    by decide +kernel, by decide +kernel, by decide +kernel, by decide +kernel⟩

end Bittery.CryptoCore
