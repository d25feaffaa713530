/-
The one-time passwords of the clients against those of the core: which secrets the two readers read alike, and when
the two codes are the same.
-/
import Bittery.Client.TotpFacts
import Bittery.Crypto.TotpCodes

namespace Bittery.Totp

open Lib

variable {u : Ecma.UpperCase}

/-! ## Characters -/

/-- Both readers skip it or take it for the same digit. -/
def Common (c : Char) : Prop :=
  (Ecma.isSpace c = true ∧ c ≠ Ecma.BOM) ∨ c = '=' ∨ (Base32.value c).isSome = true

/-- Only the clients skip a zero width space of the kind of byte order marks, and take the upper case of these. -/
def WebOnly (c : Char) : Prop := c = Ecma.BOM ∨ ∃ entry ∈ Ecma.asciiUpperCases, entry.1 = c

def NEXT_LINE : Char := Char.ofNat 0x85

/-- Only the core skips a next line, and takes a character for the letter that its low byte is. -/
def CoreOnly (c : Char) : Prop := c = NEXT_LINE ∨ CryptoCore.Disguised c

/-- A text without white space and the padding at its end. -/
def digitsOf (text : Text) : Text := (text.filter fun c => !Ecma.isSpace c).rdropWhile (· = '=')

/-- Padding with something after it. -/
def InnerPadding (text : Text) : Prop := '=' ∈ digitsOf text

/-- Both readers take it. -/
def Plain (text : Text) : Prop := (∀ c ∈ text, Common c) ∧ ¬InnerPadding text

/-- Both take a text, or none does: it has a character that none takes, or something that only the clients take and
something that only the core takes, or nothing of either. -/
def ReadAlike (text : Text) : Prop :=
  (∃ c ∈ text, ¬Common c ∧ ¬WebOnly c ∧ ¬CoreOnly c) ∨
    ((∃ c ∈ text, WebOnly c) ↔ (∃ c ∈ text, CoreOnly c) ∨ InnerPadding text)

theorem isSpace_bom_iff (c : Char) :
    Bittery.Srp6a.isWhitespace c = true ↔ (Ecma.isSpace c = true ∧ c ≠ Ecma.BOM) ∨ c = NEXT_LINE := by
  have hbom : c = Ecma.BOM ↔ c.toNat = 0xFEFF := ⟨fun h => h ▸ rfl, fun h => by rw [← Char.ofNat_toNat c, h]; rfl⟩
  have hnext : c = NEXT_LINE ↔ c.toNat = 0x85 := ⟨fun h => h ▸ rfl, fun h => by rw [← Char.ofNat_toNat c, h]; rfl⟩
  rw [ne_eq, hbom, hnext]
  simp only [Srp6a.isWhitespace, Ecma.isSpace, Bool.or_eq_true, Bool.and_eq_true, decide_eq_true_eq]
  omega

theorem not_common_of_webOnly {c : Char} (h : WebOnly c) : ¬Common c ∧ ¬CoreOnly c := by
  have hall : (Ecma.asciiUpperCases.all fun entry => !Ecma.isSpace entry.1 && entry.1 != '=' &&
      (Base32.value entry.1).isNone && entry.1 != NEXT_LINE &&
      !CryptoCore.CHARSET.contains (CryptoCore.asByte entry.1)) = true := by decide
  rcases h with rfl | ⟨entry, hentry, rfl⟩
  · exact ⟨by rw [Common]; decide, by rw [CoreOnly]; decide⟩
  · have hentry := List.all_eq_true.1 hall entry hentry
    simp only [Bool.and_eq_true, Bool.not_eq_true', bne_iff_ne, ne_eq] at hentry
    obtain ⟨⟨⟨⟨hspace, heq⟩, hvalue⟩, hnext⟩, hbyte⟩ := hentry
    refine ⟨?_, ?_⟩
    · rintro (⟨h, -⟩ | h | h)
      · exact Bool.false_ne_true (hspace.symm.trans h)
      · exact heq h
      · rw [Option.isNone_iff_eq_none] at hvalue
        rw [hvalue] at h
        cases h
    · rintro (h | h)
      · exact hnext h
      · exact Bool.false_ne_true (hbyte.symm.trans (List.contains_iff_mem.2 h.2))

theorem low_of_disguised {c : Char} (h : CryptoCore.Disguised c) :
    0xFF < c.toNat ∧ ((65 ≤ c.toNat % 256 ∧ c.toNat % 256 ≤ 90) ∨ (50 ≤ c.toNat % 256 ∧ c.toNat % 256 ≤ 55)) := by
  have hall : ∀ n < 256, UInt8.ofNat n ∈ CryptoCore.CHARSET → (65 ≤ n ∧ n ≤ 90) ∨ (50 ≤ n ∧ n ≤ 55) := by
    decide +kernel
  have hbyte : CryptoCore.asByte c = UInt8.ofNat (c.toNat % 256) := by
    rw [CryptoCore.asByte, ← UInt8.toNat_inj, UInt8.toNat_ofNat', UInt8.toNat_ofNat', Nat.mod_mod]
  exact ⟨h.1, hall _ (Nat.mod_lt _ (by decide)) (hbyte ▸ h.2)⟩

theorem not_common_of_coreOnly {c : Char} (h : CoreOnly c) : ¬Common c := by
  rcases h with rfl | h
  · rw [Common]
    decide
  · obtain ⟨hlarge, hlow⟩ := low_of_disguised h
    rintro (⟨hspace, -⟩ | rfl | hvalue)
    · simp only [Ecma.isSpace, Bool.or_eq_true, Bool.and_eq_true, decide_eq_true_eq] at hspace
      omega
    · exact absurd hlarge (by decide)
    · rw [CryptoCore.not_value_of_disguised h] at hvalue
      cases hvalue

/-! ## The clients' reader -/

theorem upper_padding {c : Char} (h : '=' ∈ u.map c) : c = '=' := by
  rcases Nat.lt_or_ge c.toNat 128 with hc | hc
  · rw [u.ascii c hc, List.mem_singleton] at h
    have hall : ∀ n < 128, '=' = (Char.ofNat n).toUpper → n = 61 := by decide +kernel
    have hn := hall c.toNat hc
    rw [Char.ofNat_toNat] at hn
    rw [← Char.ofNat_toNat c, hn h]
  · exact absurd (u.letters c hc '=' h (by decide)) (by decide)

theorem upper_ne_nil (c : Char) : u.map c ≠ [] := by
  rcases Nat.lt_or_ge c.toNat 128 with hc | hc
  · rw [u.ascii c hc]
    exact List.cons_ne_nil _ _
  · by_cases hentry : ∃ entry ∈ Ecma.asciiUpperCases, entry.1 = c
    · obtain ⟨entry, hentry, rfl⟩ := hentry
      have hall : (Ecma.asciiUpperCases.all fun entry => !entry.2.isEmpty) = true := by decide
      rw [u.toAscii entry hentry]
      exact fun h => by simpa [h] using List.all_eq_true.1 hall entry hentry
    · push Not at hentry
      obtain ⟨d, hd, -⟩ := u.other c hc hentry
      exact List.ne_nil_of_mem hd

/-- Padding goes with the characters that it is the upper case of. -/
theorem noPadding_eq (text : Text) : noPadding u text = Ecma.toUpperCase u (digitsOf text) := by
  have hequal : u.map '=' = ['='] := u.ascii '=' (by decide)
  rw [noPadding, digitsOf]
  generalize text.filter (fun c => !Ecma.isSpace c) = kept
  induction kept using List.reverseRecOn with
  | nil => rfl
  | append_singleton kept c ih =>
    rw [Ecma.toUpperCase, List.flatMap_append, List.flatMap_singleton]
    by_cases hc : c = '='
    · subst c
      rw [hequal, List.rdropWhile_concat_pos _ _ _ (by simp), List.rdropWhile_concat_pos _ _ _ (by simp)]
      exact ih
    · obtain ⟨init, last, hlast⟩ : ∃ init last, u.map c = init ++ [last] :=
        ⟨_, _, (List.dropLast_append_getLast (upper_ne_nil c)).symm⟩
      have hne : last ≠ '=' := fun heq => hc (upper_padding (u := u) (by rw [hlast, heq]; simp))
      rw [List.rdropWhile_concat_neg _ _ c (by simpa using hc), hlast, ← List.append_assoc,
        List.rdropWhile_concat_neg _ _ last (by simpa using hne), Ecma.toUpperCase, List.flatMap_append,
        List.flatMap_singleton, hlast, List.append_assoc]

/-- A digit in ASCII, or a character whose upper case is one or more. -/
def WebDigit (c : Char) : Prop := (Base32.value c).isSome = true ∨ ∃ entry ∈ Ecma.asciiUpperCases, entry.1 = c

theorem value_iff_of_ascii {c : Char} (hc : c.toNat < 128) :
    (c.toUpper ∈ BASE32_ALPHABET ↔ (Base32.value c).isSome = true) ∧
      ((Base32.value c).isSome = true → Base32.value c = some (BASE32_ALPHABET.idxOf c.toUpper)) := by
  have hall : ∀ n < 128, ((Char.ofNat n).toUpper ∈ BASE32_ALPHABET ↔ (Base32.value (Char.ofNat n)).isSome = true) ∧
      ((Base32.value (Char.ofNat n)).isSome = true →
        Base32.value (Char.ofNat n) = some (BASE32_ALPHABET.idxOf (Char.ofNat n).toUpper)) := by decide +kernel
  have hn := hall c.toNat hc
  rwa [Char.ofNat_toNat] at hn

theorem ascii_of_value {c : Char} (h : (Base32.value c).isSome = true) : c.toNat < 128 := by
  by_contra hc
  rw [Base32.value, if_neg (by omega), if_neg (by omega), if_neg (by omega)] at h
  cases h

/-- The upper case of a character is made of digits, or has a character that is refused. -/
theorem upper_mem_iff (c : Char) : (∀ d ∈ u.map c, d ∈ BASE32_ALPHABET) ↔ WebDigit c := by
  rw [WebDigit]
  rcases Nat.lt_or_ge c.toNat 128 with hc | hc
  · have hnone : ¬∃ entry ∈ Ecma.asciiUpperCases, entry.1 = c := by
      rintro ⟨entry, hentry, rfl⟩
      have hall : (Ecma.asciiUpperCases.all fun entry => 128 ≤ entry.1.toNat) = true := by decide
      have hlarge := List.all_eq_true.1 hall entry hentry
      rw [decide_eq_true_eq] at hlarge
      omega
    rw [u.ascii c hc, or_iff_left hnone, ← (value_iff_of_ascii hc).1]
    simp
  · have hvalue : ¬(Base32.value c).isSome = true := fun h => absurd (ascii_of_value h) (by omega)
    rw [or_iff_right hvalue]
    constructor
    · intro h
      by_contra hnone
      push Not at hnone
      obtain ⟨d, hd, hlarge⟩ := u.other c hc hnone
      exact absurd (ascii_of_mem (h d hd)).1 (by omega)
    · rintro ⟨entry, hentry, rfl⟩
      have hall : (Ecma.asciiUpperCases.all fun entry => entry.2.all BASE32_ALPHABET.contains) = true := by decide
      rw [u.toAscii entry hentry]
      exact fun d hd => List.contains_iff_mem.1 (List.all_eq_true.1 (List.all_eq_true.1 hall entry hentry) d hd)

theorem web_ok_iff (text : Text) :
    (∃ bytes, base32Decode u text = .ok bytes) ↔ ∀ c ∈ digitsOf text, WebDigit c := by
  constructor
  · rintro ⟨bytes, hok⟩
    by_contra hbad
    push Not at hbad
    obtain ⟨c, hc, hdigit⟩ := hbad
    rw [← upper_mem_iff (u := u)] at hdigit
    push Not at hdigit
    obtain ⟨d, hd, hout⟩ := hdigit
    have hmem : d ∈ noPadding u text := by
      rw [noPadding_eq]
      exact List.mem_flatMap.2 ⟨c, hc, hd⟩
    obtain ⟨e, herror⟩ := base32Decode_error hmem hout
    rw [hok] at herror
    cases herror
  · intro h
    have hall : ∀ d ∈ noPadding u text, d ∈ BASE32_ALPHABET := fun d hd => by
      rw [noPadding_eq] at hd
      obtain ⟨c, hc, hd⟩ := List.mem_flatMap.1 hd
      exact (upper_mem_iff c).2 (h c hc) d hd
    exact ⟨_, base32Decode_ok hall⟩

theorem mem_digitsOf {text : Text} {c : Char} (hne : c ≠ '=') :
    c ∈ digitsOf text ↔ c ∈ text ∧ Ecma.isSpace c = false := by
  have hsplit := List.rdropWhile_append_rtakeWhile (p := (· = '=')) (l := text.filter fun c => !Ecma.isSpace c)
  have hmem : c ∈ text.filter (fun c => !Ecma.isSpace c) ↔ c ∈ digitsOf text := by
    rw [← hsplit, List.mem_append, or_iff_left fun h => hne (by simpa using List.mem_rtakeWhile_imp h)]
    rfl
  rw [← hmem, List.mem_filter, Bool.not_eq_true']

/-- The clients take texts of what they skip and of digits, with padding at the end. -/
theorem web_accepts_iff (text : Text) :
    (∃ bytes, base32Decode u text = .ok bytes) ↔ (∀ c ∈ text, Common c ∨ WebOnly c) ∧ ¬InnerPadding text := by
  rw [web_ok_iff]
  constructor
  · intro h
    refine ⟨fun c hc => ?_, fun hpadding => ?_⟩
    · by_cases hequal : c = '='
      · exact Or.inl (Or.inr (Or.inl hequal))
      cases hspace : Ecma.isSpace c with
      | true =>
        by_cases hbom : c = Ecma.BOM
        · exact Or.inr (Or.inl hbom)
        · exact Or.inl (Or.inl ⟨hspace, hbom⟩)
      | false => exact (h c ((mem_digitsOf hequal).2 ⟨hc, hspace⟩)).imp (fun h => Or.inr (Or.inr h)) Or.inr
    · rcases h '=' hpadding with h | ⟨entry, hentry, heq⟩
      · exact absurd h (by decide)
      · exact absurd (Or.inr (Or.inl heq)) (not_common_of_webOnly (Or.inr ⟨entry, hentry, rfl⟩)).1
  · rintro ⟨hall, hpadding⟩ c hc
    have hequal : c ≠ '=' := fun heq => hpadding (by rw [InnerPadding, ← heq]; exact hc)
    obtain ⟨hmem, hspace⟩ := (mem_digitsOf hequal).1 hc
    rcases hall c hmem with (⟨h, -⟩ | h | h) | (rfl | h)
    · exact absurd (hspace.symm.trans h) Bool.false_ne_true
    · exact absurd h hequal
    · exact Or.inl h
    · exact absurd (hspace.symm.trans Ecma.isSpace_bom) Bool.false_ne_true
    · exact Or.inr h

/-! ## The core's reader -/

theorem core_accepts_iff (secret : String) :
    (∃ bytes, CryptoCore.base32Decode secret = .ok bytes) ↔ ∀ c ∈ secret.toList, Common c ∨ CoreOnly c := by
  have hanswer := CryptoCore.base32Decode_eq secret
  rw [CryptoCore.mapM_sanitized] at hanswer
  have hkept : (∀ c ∈ CryptoCore.base32Kept secret, (Base32.value c).isSome = true ∨ CryptoCore.Disguised c) ↔
      ∀ c ∈ secret.toList, Common c ∨ CoreOnly c := by
    simp only [CryptoCore.base32Kept, List.mem_filter, Bool.and_eq_true, Bool.not_eq_true', decide_eq_true_eq, and_imp]
    refine forall₂_congr fun c _ => ?_
    rw [← Bool.not_eq_true, isSpace_bom_iff, Common, CoreOnly]
    tauto
  rw [← hkept]
  cases hvalues : (CryptoCore.base32Kept secret).mapM fun c => CryptoCore.position c.toUpper with
  | none =>
    rw [hvalues] at hanswer
    obtain ⟨e, herror⟩ := hanswer
    refine iff_of_false ?_ fun hall => ?_
    · rintro ⟨bytes, hok⟩
      rw [hok] at herror
      cases herror
    · have hsome := (CryptoCore.mapM_isSome_iff _ _).2 fun c hc =>
        (CryptoCore.position_isSome_iff c).2 (hall c hc)
      rw [hvalues] at hsome
      cases hsome
  | some values =>
    rw [hvalues] at hanswer
    refine iff_of_true ⟨_, hanswer⟩ fun c hc => (CryptoCore.position_isSome_iff c).1 ?_
    exact (CryptoCore.mapM_isSome_iff _ _).1 (by rw [hvalues]; rfl) c hc

/-- One of the readers takes a text and the other does not, unless they read it alike. -/
theorem readAlike_iff (secret : String) :
    ((∃ bytes, base32Decode u secret.toList = .ok bytes) ↔ ∃ bytes, CryptoCore.base32Decode secret = .ok bytes) ↔
      ReadAlike secret.toList := by
  rw [web_accepts_iff, core_accepts_iff, ReadAlike]
  by_cases hunread : ∃ c ∈ secret.toList, ¬Common c ∧ ¬WebOnly c ∧ ¬CoreOnly c
  · obtain ⟨c, hc, hcommon, hweb, hcore⟩ := hunread
    exact iff_of_true (iff_of_false (fun h => (h.1 c hc).elim hcommon hweb) fun h => (h c hc).elim hcommon hcore)
      (Or.inl ⟨c, hc, hcommon, hweb, hcore⟩)
  · rw [or_iff_right hunread]
    push Not at hunread
    have hweb : (∀ c ∈ secret.toList, Common c ∨ WebOnly c) ↔ ¬∃ c ∈ secret.toList, CoreOnly c := by
      push Not
      refine forall₂_congr fun c hc => ⟨fun h hcore => ?_, fun hcore => ?_⟩
      · exact h.elim (not_common_of_coreOnly hcore) fun hweb => (not_common_of_webOnly hweb).2 hcore
      · by_contra hnone
        rw [not_or] at hnone
        exact hcore (hunread c hc hnone.1 hnone.2)
    have hcore : (∀ c ∈ secret.toList, Common c ∨ CoreOnly c) ↔ ¬∃ c ∈ secret.toList, WebOnly c := by
      push Not
      refine forall₂_congr fun c hc => ⟨fun h hweb => ?_, fun hweb => ?_⟩
      · exact h.elim (not_common_of_webOnly hweb).1 (not_common_of_webOnly hweb).2
      · by_contra hnone
        rw [not_or] at hnone
        exact hnone.2 (hunread c hc hnone.1 hweb)
    rw [hweb, hcore, ← not_or, not_iff_not]
    exact Iff.comm

/-- What both readers take they take for the same bytes. -/
theorem same_bytes {secret : String} (h : Plain secret.toList) :
    ∃ bytes, base32Decode u secret.toList = .ok bytes ∧ CryptoCore.base32Decode secret = .ok bytes := by
  obtain ⟨hcommon, hpadding⟩ := h
  -- the two readers keep the same characters, and all of them are digits
  have hkept : (secret.toList.filter fun c => !Srp6a.isWhitespace c) = secret.toList.filter fun c => !Ecma.isSpace c := by
    refine List.filter_congr fun c hc => ?_
    have hspace := isSpace_bom_iff c
    have hbom : c ≠ Ecma.BOM := fun h => (not_common_of_webOnly (Or.inl h)).1 (hcommon c hc)
    have hnext : c ≠ NEXT_LINE := fun h => not_common_of_coreOnly (Or.inl h) (hcommon c hc)
    rw [or_iff_left hnext, and_iff_left hbom] at hspace
    rw [Bool.eq_iff_iff.2 hspace]
  have hdigits : CryptoCore.base32Digits secret = digitsOf secret.toList := by
    rw [CryptoCore.base32Digits, hkept, digitsOf]
  have hvalue : ∀ c ∈ digitsOf secret.toList, (Base32.value c).isSome = true := fun c hc => by
    have hequal : c ≠ '=' := fun heq => hpadding (by rw [InnerPadding, ← heq]; exact hc)
    obtain ⟨hmem, hspace⟩ := (mem_digitsOf hequal).1 hc
    rcases hcommon c hmem with ⟨h, -⟩ | h | h
    · exact absurd (hspace.symm.trans h) Bool.false_ne_true
    · exact absurd h hequal
    · exact h
  obtain ⟨values, hvalues⟩ := CryptoCore.exists_mapM hvalue
  -- the clients take the upper case of the digits
  have hupper : noPadding u secret.toList = (digitsOf secret.toList).map Char.toUpper := by
    rw [noPadding_eq, Ecma.toUpperCase_of_ascii fun c hc => ascii_of_value (hvalue c hc)]
  have hmisread : ¬CryptoCore.Misread secret := by
    rintro ⟨-, ⟨c, hc, hdisguised⟩ | hinner⟩
    · exact not_common_of_coreOnly (Or.inr hdisguised) (hcommon c (List.mem_filter.1 hc).1)
    · rw [hdigits] at hinner
      exact hpadding hinner
  have hcore := (CryptoCore.decodes_iff secret).2 hmisread
  rw [CryptoCore.Decodes, CryptoCore.base32Grammar, hdigits, hvalues] at hcore
  refine ⟨Base32.decode values, ?_, hcore⟩
  have hmem : ∀ c ∈ (digitsOf secret.toList).map Char.toUpper, c ∈ BASE32_ALPHABET := fun d hd => by
    obtain ⟨c, hc, rfl⟩ := List.mem_map.1 hd
    exact (value_iff_of_ascii (ascii_of_value (hvalue c hc))).1.2 (hvalue c hc)
  have hindex : (digitsOf secret.toList).mapM Base32.value =
      some (((digitsOf secret.toList).map Char.toUpper).map BASE32_ALPHABET.idxOf) := by
    rw [CryptoCore.mapM_congr_mem (g := fun c => some (BASE32_ALPHABET.idxOf c.toUpper)) fun c hc =>
      (value_iff_of_ascii (ascii_of_value (hvalue c hc))).2 (hvalue c hc), List.map_map]
    exact List.mapM_pure
  rw [hindex] at hvalues
  rw [base32Decode_ok (hupper.symm ▸ hmem), hupper, Option.some.inj hvalues]

/-! ## Codes -/

/-- Both write the same code for a value of the function, in ten to a power that is at most 10^8. -/
def code (mac : Mac) (digits : Nat) : Text :=
  (Nat.toDigits 10 ((CryptoCore.truncate mac).toNat % 10 ^ digits)).leftpad digits '0'

theorem truncate_eq (mac : Mac) : (truncate mac).toInt = (CryptoCore.truncate mac).toNat := by
  have hsame : (CryptoCore.truncate mac).toBitVec = truncate mac := rfl
  have hsign : (truncate mac).msb = false := by
    simp [truncate, BitVec.msb_eq_getLsbD_last]
  rw [BitVec.toInt_eq_msb_cond, hsign, ← hsame]
  rfl

theorem generateHotp_eq (hmac : Hmac) (secret : List UInt8) (counter : Nat) (algorithm : String) (digits : Nat) :
    generateHotp hmac secret counter algorithm digits = (do
      assertValidDigits digits
      return code (hmac (getWebCryptoAlgorithm algorithm) secret (numberToBytes counter)) digits) := by
  rw [generateHotp]
  congr 1
  funext _
  have hmod (n : Nat) : (n : Int).tmod (10 ^ digits) = ((n % 10 ^ digits : Nat) : Int) := by
    rw [Int.natCast_mod, Int.tmod_eq_emod_of_nonneg (Int.natCast_nonneg n)]
    simp
  have htext (n : Nat) : (toString (n : Int)).toList = Nat.toDigits 10 n := Nat.toList_repr
  simp only [truncate_eq, code, hmod, htext]

theorem numberToBytes_eq (n : Nat) : numberToBytes n = Base32.beBytes 8 n := by
  suffices h : ∀ k n, bytesUpTo k n = Base32.beBytes k n from h 8 n
  intro k
  induction k with
  | zero => exact fun _ => rfl
  | succ k ih =>
    intro n
    have hbyte : UInt8.ofNat (n &&& 0xff) = UInt8.ofNat n := by
      rw [← UInt8.toNat_inj, UInt8.toNat_ofNat', UInt8.toNat_ofNat', show 0xff = 2 ^ 8 - 1 from rfl,
        Nat.and_two_pow_sub_one_eq_mod, Nat.mod_mod]
    rw [bytesUpTo, Base32.beBytes, ih, hbyte]

theorem truncate_constant :
    CryptoCore.truncate (Mac.constant 0) = 0 ∧ CryptoCore.truncate (Mac.constant 1) = 16843009 := by
  simp only [CryptoCore.truncate, Mac.byte_constant]
  decide

/-- The codes of two values that differ. -/
theorem code_ne {d : Nat} (h : 6 ≤ d ∧ d ≤ 8) : code (Mac.constant 0) d ≠ code (Mac.constant 1) d := by
  have hall : ∀ d < 9, 6 ≤ d → (Nat.toDigits 10 (0 % 10 ^ d)).leftpad d '0' ≠
      (Nat.toDigits 10 (16843009 % 10 ^ d)).leftpad d '0' := by decide
  rw [code, code, truncate_constant.1, truncate_constant.2]
  exact hall d (Nat.lt_succ_of_le h.2) h.1

/-! ## Agreement -/

section Agreement

variable (u) (secret algorithm : String) (digits : UInt32) (period timestamp : UInt64)

/-- Both fail, or the codes are the same. -/
def Agrees (hmac : Hmac) : Prop :=
  let web := generateTotpAt u hmac ⟨secret.toList, algorithm, digits.toNat, period.toNat⟩ timestamp.toNat
  let core := CryptoCore.generateTotpAt u hmac secret algorithm digits period timestamp
  (∃ code, web = .ok code ∧ core = .ok code) ∨ ((∃ e, web = .error e) ∧ ∃ e, core = .error (.error e))

/-- Only the core takes the names of the hash functions in another case. -/
def SameHash : Prop :=
  ∀ name ∈ ["SHA256", "SHA512"], Ecma.toUpperCase u algorithm.toList = name.toList → algorithm = name

/-- The quotient in doubles, in the 64 bits of the counter, is the exact one. -/
def SameCounter : Prop := Binary64.floorQuotient timestamp.toNat period.toNat % 2 ^ 64 = (timestamp / period).toNat

/-- The digits or the period are refused; or the secret is read alike, and if it is taken, so are the name of the hash
function and the quotient. -/
def CodesAlike : Prop :=
  6 ≤ digits ∧ digits ≤ 8 → period ≠ 0 →
    ReadAlike secret.toList ∧ (Plain secret.toList → SameHash u algorithm ∧ SameCounter period timestamp)

variable {u secret algorithm digits period timestamp} {hmac : Hmac}

theorem digits_iff : 6 ≤ digits ∧ digits ≤ 8 ↔ ¬(digits.toNat < MIN_TOTP_DIGITS ∨ MAX_TOTP_DIGITS < digits.toNat) := by
  rw [UInt32.le_iff_toNat_le, UInt32.le_iff_toNat_le, not_or, Nat.not_lt, Nat.not_lt]
  rfl

theorem period_iff : period ≠ 0 ↔ ¬period.toNat < 1 := by
  rw [ne_eq, ← UInt64.toNat_inj, Nat.not_lt, Nat.one_le_iff_ne_zero]
  rfl

theorem web_refused (h : ¬((6 ≤ digits ∧ digits ≤ 8) ∧ period ≠ 0)) : ∃ e,
    generateTotpAt u hmac ⟨secret.toList, algorithm, digits.toNat, period.toNat⟩ timestamp.toNat = .error e := by
  rw [digits_iff, period_iff] at h
  by_cases hdigits : digits.toNat < MIN_TOTP_DIGITS ∨ MAX_TOTP_DIGITS < digits.toNat
  · exact ⟨_, by simp only [generateTotpAt, Option.getD_some, assertValidDigits, if_pos hdigits]; rfl⟩
  · have hperiod : period.toNat < 1 := by
      by_contra hperiod
      exact h ⟨hdigits, hperiod⟩
    exact ⟨_, by simp only [generateTotpAt, Option.getD_some, assertValidDigits, if_neg hdigits, assertValidPeriod,
      if_pos hperiod]; rfl⟩

theorem core_refused (h : ¬((6 ≤ digits ∧ digits ≤ 8) ∧ period ≠ 0)) : ∃ e,
    CryptoCore.generateTotpAt u hmac secret algorithm digits period timestamp = .error (.error e) := by
  by_cases hdigits : 6 ≤ digits ∧ digits ≤ 8
  · have hperiod : period = 0 := by
      by_contra hperiod
      exact h ⟨hdigits, hperiod⟩
    have hvalid : CryptoCore.validateDigits digits = .ok () := if_pos hdigits
    have hrefused : CryptoCore.validatePeriod period = .error (.error (.invalidInput
      "Invalid TOTP period: expected at least 1 second, got 0")) := if_pos hperiod
    exact ⟨_, by rw [CryptoCore.generateTotpAt, hvalid, hrefused]; rfl⟩
  · have hrefused : CryptoCore.validateDigits digits = .error (.error (.invalidInput
      s!"Invalid TOTP digits: expected {CryptoCore.MIN_TOTP_DIGITS}-{CryptoCore.MAX_TOTP_DIGITS}, got {digits}")) :=
      if_neg hdigits
    exact ⟨_, by rw [CryptoCore.generateTotpAt, hrefused]; rfl⟩

theorem web_eq (hdigits : 6 ≤ digits ∧ digits ≤ 8) (hperiod : period ≠ 0) :
    generateTotpAt u hmac ⟨secret.toList, algorithm, digits.toNat, period.toNat⟩ timestamp.toNat =
      (base32Decode u secret.toList).map fun bytes => code (hmac (getWebCryptoAlgorithm algorithm) bytes
        (Base32.beBytes 8 (Binary64.floorQuotient timestamp.toNat period.toNat))) digits.toNat := by
  have hvalid : assertValidDigits digits.toNat = .ok () := if_neg (digits_iff.1 hdigits)
  have hpositive : assertValidPeriod period.toNat = .ok () := if_neg (period_iff.1 hperiod)
  simp only [generateTotpAt, Option.getD_some, hvalid, hpositive, generateHotp_eq, numberToBytes_eq]
  cases base32Decode u secret.toList <;> rfl

theorem core_eq (hdigits : 6 ≤ digits ∧ digits ≤ 8) (hperiod : period ≠ 0) :
    CryptoCore.generateTotpAt u hmac secret algorithm digits period timestamp =
      (CryptoCore.base32Decode secret).map fun bytes => code (hmac (CryptoCore.hashOf u algorithm) bytes
        (Base32.beBytes 8 (timestamp / period).toNat)) digits.toNat := by
  have hvalid : CryptoCore.validateDigits digits = .ok () := if_pos hdigits
  have hpositive : CryptoCore.validatePeriod period = .ok () := if_neg hperiod
  simp only [CryptoCore.generateTotpAt, hvalid, hpositive, CryptoCore.hotp]
  cases CryptoCore.base32Decode secret <;> rfl

theorem sameHash_iff : SameHash u algorithm ↔ getWebCryptoAlgorithm algorithm = CryptoCore.hashOf u algorithm := by
  have hone : Ecma.toUpperCase u "SHA256".toList = "SHA256".toList := by
    rw [Ecma.toUpperCase_of_ascii (by simp)]
    decide
  have htwo : Ecma.toUpperCase u "SHA512".toList = "SHA512".toList := by
    rw [Ecma.toUpperCase_of_ascii (by simp)]
    decide
  have hne : "SHA256".toList ≠ "SHA512".toList := by decide
  rw [SameHash, List.forall_mem_cons, List.forall_mem_singleton, CryptoCore.hashOf, getWebCryptoAlgorithm]
  by_cases h256 : algorithm = "SHA256"
  · rw [h256, hone, if_pos rfl, if_pos rfl]
    exact iff_of_true ⟨fun _ => rfl, fun h => absurd h hne⟩ rfl
  · rw [if_neg h256]
    by_cases h512 : algorithm = "SHA512"
    · rw [h512, htwo, if_pos rfl, if_neg hne.symm, if_pos rfl]
      exact iff_of_true ⟨fun h => absurd h hne.symm, fun _ => rfl⟩ rfl
    · rw [if_neg h512]
      split
      · next h => exact iff_of_false (fun hsame => h256 (hsame.1 h)) (by decide)
      · next h =>
        split
        · next h' => exact iff_of_false (fun hsame => h512 (hsame.2 h')) (by decide)
        · next h' => exact iff_of_true ⟨fun h'' => absurd h'' h, fun h'' => absurd h'' h'⟩ rfl

theorem core_decode (secret : String) :
    (∃ bytes, CryptoCore.base32Decode secret = .ok bytes) ∨ ∃ e, CryptoCore.base32Decode secret = .error (.error e) := by
  have hanswer := CryptoCore.base32Decode_eq secret
  cases hvalues : (CryptoCore.sanitized secret).mapM CryptoCore.position with
  | none => exact Or.inr (by simpa only [hvalues] using hanswer)
  | some values => exact Or.inl ⟨_, by simpa only [hvalues] using hanswer⟩

theorem map_eq_ok {ε α β : Type} {x : Except ε α} {f : α → β} {b : β} : x.map f = .ok b ↔ ∃ a, x = .ok a ∧ f a = b := by
  cases x <;> simp [Except.map]

theorem map_eq_error {ε α β : Type} {x : Except ε α} {f : α → β} {e : ε} : x.map f = .error e ↔ x = .error e := by
  cases x <;> simp [Except.map]

/-- With settings that neither refuses: the secret is refused by both, or the codes of two values are the same. -/
theorem agrees_iff (hdigits : 6 ≤ digits ∧ digits ≤ 8) (hperiod : period ≠ 0) :
    Agrees u secret algorithm digits period timestamp hmac ↔
      (∃ bytes bytes', base32Decode u secret.toList = .ok bytes ∧ CryptoCore.base32Decode secret = .ok bytes' ∧
        code (hmac (getWebCryptoAlgorithm algorithm) bytes
          (Base32.beBytes 8 (Binary64.floorQuotient timestamp.toNat period.toNat))) digits.toNat =
        code (hmac (CryptoCore.hashOf u algorithm) bytes' (Base32.beBytes 8 (timestamp / period).toNat)) digits.toNat) ∨
      ((∃ e, base32Decode u secret.toList = .error e) ∧ ∃ e, CryptoCore.base32Decode secret = .error (.error e)) := by
  rw [Agrees, web_eq hdigits hperiod, core_eq hdigits hperiod]
  simp only [map_eq_ok, map_eq_error]
  refine or_congr_left ⟨?_, ?_⟩
  · rintro ⟨_, ⟨bytes, hweb, rfl⟩, bytes', hcore, hsame⟩
    exact ⟨bytes, bytes', hweb, hcore, hsame.symm⟩
  · rintro ⟨bytes, bytes', hweb, hcore, hsame⟩
    exact ⟨_, ⟨bytes, hweb, rfl⟩, bytes', hcore, hsame.symm⟩

theorem plain_of_ok (hweb : ∃ bytes, base32Decode u secret.toList = .ok bytes)
    (hcore : ∃ bytes, CryptoCore.base32Decode secret = .ok bytes) : Plain secret.toList := by
  rw [web_accepts_iff] at hweb
  rw [core_accepts_iff] at hcore
  exact ⟨fun c hc => (hweb.1 c hc).resolve_right fun h =>
    (hcore c hc).elim (not_common_of_webOnly h).1 (not_common_of_webOnly h).2, hweb.2⟩

/-- What they agree on for two functions that tell the messages apart. -/
theorem codesAlike_of_agrees (h : ∀ hmac, Agrees u secret algorithm digits period timestamp hmac) :
    CodesAlike u secret algorithm digits period timestamp := by
  intro hdigits hperiod
  have hsame (hmac : Hmac) := (agrees_iff hdigits hperiod).1 (h hmac)
  have hread : (∃ bytes, base32Decode u secret.toList = .ok bytes) ↔
      ∃ bytes, CryptoCore.base32Decode secret = .ok bytes := by
    rcases hsame fun _ _ _ => Mac.constant 0 with ⟨bytes, bytes', hweb, hcore, -⟩ | ⟨⟨e, hweb⟩, e', hcore⟩
    · exact iff_of_true ⟨bytes, hweb⟩ ⟨bytes', hcore⟩
    · exact iff_of_false (fun ⟨_, h⟩ => by rw [hweb] at h; cases h) fun ⟨_, h⟩ => by rw [hcore] at h; cases h
  refine ⟨(readAlike_iff secret).1 hread, fun hplain => ?_⟩
  obtain ⟨taken, hweb, hcore⟩ := same_bytes (u := u) hplain
  rw [sameHash_iff, SameCounter]
  by_contra hdiffer
  -- a function that has one value for the clients' hash and counter, and another one elsewhere
  let message := Base32.beBytes 8 (Binary64.floorQuotient timestamp.toNat period.toNat)
  rcases hsame fun hash _ bytes => if hash = getWebCryptoAlgorithm algorithm ∧ bytes = message then Mac.constant 0
      else Mac.constant 1 with ⟨_, _, -, -, hcode⟩ | ⟨⟨e, herror⟩, -⟩
  · rw [if_pos ⟨rfl, rfl⟩, if_neg] at hcode
    · rw [UInt32.le_iff_toNat_le, UInt32.le_iff_toNat_le] at hdigits
      exact code_ne hdigits hcode
    · rintro ⟨hhash, hcounter⟩
      refine hdiffer ⟨hhash.symm, ?_⟩
      rw [Base32.beBytes_inj, show 256 ^ 8 = 2 ^ 64 from rfl, Nat.mod_eq_of_lt (timestamp / period).toNat_lt] at hcounter
      exact hcounter.symm
  · rw [hweb] at herror
    cases herror

theorem agrees_of_codesAlike (h : CodesAlike u secret algorithm digits period timestamp) (hmac : Hmac) :
    Agrees u secret algorithm digits period timestamp hmac := by
  by_cases hvalid : (6 ≤ digits ∧ digits ≤ 8) ∧ period ≠ 0
  · obtain ⟨hdigits, hperiod⟩ := hvalid
    obtain ⟨hread, hsame⟩ := h hdigits hperiod
    rw [agrees_iff hdigits hperiod]
    by_cases hplain : Plain secret.toList
    · obtain ⟨bytes, hweb, hcore⟩ := same_bytes (u := u) hplain
      obtain ⟨hhash, hcounter⟩ := hsame hplain
      have hmessage : Base32.beBytes 8 (Binary64.floorQuotient timestamp.toNat period.toNat) =
          Base32.beBytes 8 (timestamp / period).toNat := by
        rw [Base32.beBytes_inj, show 256 ^ 8 = 2 ^ 64 from rfl, Nat.mod_eq_of_lt (timestamp / period).toNat_lt]
        exact hcounter
      exact Or.inl ⟨bytes, bytes, hweb, hcore, by rw [sameHash_iff.1 hhash, hmessage]⟩
    · have halike := (readAlike_iff (u := u) secret).2 hread
      have hcore : ¬∃ bytes, CryptoCore.base32Decode secret = .ok bytes := fun hok =>
        hplain (plain_of_ok (halike.2 hok) hok)
      refine Or.inr ⟨?_, (core_decode secret).resolve_left hcore⟩
      cases hweb : base32Decode u secret.toList with
      | ok bytes => exact absurd (halike.1 ⟨bytes, hweb⟩) hcore
      | error e => exact ⟨e, rfl⟩
  · exact Or.inr ⟨web_refused hvalid, core_refused hvalid⟩

end Agreement

/-- **The clients and the core agree on a code, whatever the function is that authenticates the counter, exactly if
they read the secret alike, take the same hash function for its name and the quotient in doubles is exact, or refuse
the settings; and what the clients write in Base32 they read back.** -/
theorem totp_agree_iff (u : Ecma.UpperCase) :
    (∀ (secret algorithm : String) (digits : UInt32) (period timestamp : UInt64),
      (∀ hmac, Agrees u secret algorithm digits period timestamp hmac) ↔
        CodesAlike u secret algorithm digits period timestamp) ∧
    ∀ bytes, base32Decode u (base32Encode bytes) = .ok bytes :=
  ⟨fun _ _ _ _ _ => ⟨codesAlike_of_agrees, agrees_of_codesAlike⟩, base32Decode_base32Encode⟩

/-- Padding inside a secret, which only the core passes over. -/
theorem totp_differ : ¬∀ (u : Ecma.UpperCase) (hmac : Hmac),
    (∀ (secret algorithm : String) (digits : UInt32) (period timestamp : UInt64),
      Agrees u secret algorithm digits period timestamp hmac) ∧
    ∀ bytes, base32Decode u (base32Encode bytes) = .ok bytes := by
  intro h
  have hagrees := (h Ecma.UpperCase.least fun _ _ _ => Mac.constant 0).1 "AA=A" "SHA1" 6 30 59
  rcases hagrees with ⟨code, hweb, -⟩ | ⟨-, e, hcore⟩
  · have hrefused : base32Decode Ecma.UpperCase.least "AA=A".toList = .error "Invalid base32 character: =".toList := by
      decide +kernel
    rw [web_eq (by decide) (by decide), hrefused] at hweb
    cases hweb
  · have htaken : CryptoCore.base32Decode "AA=A" = .ok [0] := by decide +kernel
    rw [core_eq (by decide) (by decide), htaken] at hcore
    cases hcore

end Bittery.Totp
