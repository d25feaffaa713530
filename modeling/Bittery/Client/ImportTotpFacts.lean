/-
Whether an import keeps the settings of a one-time password or says that it does not: what a value of an export means,
and for which values each provider makes an item with the same codes.
-/
import Bittery.Client.ImportTotp
import Bittery.Client.TotpAgreement

namespace Bittery.ImportTotp

open Lib Totp

/-! ## What an export says -/

structure OtpSettings where
  secret : Text
  algorithm : Option Text := none
  digits : Option Nat := none
  period : Option Nat := none
  encoder : Option Text := none

/-- A value: an `otpauth` URI with its settings, a `steam` URI, or a bare seed. -/
inductive OtpValue where
  | uri (url : Url) (settings : OtpSettings)
  | steam (rest : Text)
  | seed (text : Text)

def OtpValue.settings : OtpValue → OtpSettings
  | .uri _ settings => settings
  | .steam rest => { secret := rest, digits := some 5, encoder := some "steam".toList }
  | .seed text => { secret := text }

variable (P : Platform)

/-- The text of a value, with white space around it or not. -/
inductive Describes (raw : Text) : OtpValue → Prop
  | uri {url : Url} {settings : OtpSettings} : Ecma.trim raw ≠ [] → isOtpAuth P (Ecma.trim raw) = true →
    P.parseUrl (Ecma.trim raw) = some url → url.protocol = "otpauth:".toList →
    url.searchParam "secret" = some settings.secret → url.searchParam "algorithm" = settings.algorithm →
    url.searchParam "digits" = settings.digits.map (fun n => n.repr.toList) →
    url.searchParam "period" = settings.period.map (fun n => n.repr.toList) →
    url.searchParam "encoder" = settings.encoder → Describes raw (.uri url settings)
  | steam {rest : Text} : isOtpAuth P (Ecma.trim raw) = false → Ecma.trim raw = "steam://".toList ++ rest →
    Describes raw (.steam rest)
  | seed : Ecma.trim raw ≠ [] → isOtpAuth P (Ecma.trim raw) = false → ¬"steam://".toList <+: Ecma.trim raw →
    Describes raw (.seed (Ecma.trim raw))

/-- What the names in the settings stand for: a hash function by its name in upper case, and the alphabet and length
of an encoder. -/
structure Reference where
  mac : Text → List UInt8 → List UInt8 → Mac
  encode : Text → Mac → Nat → Text

/-- Digits, or what the encoder makes. -/
def Reference.text (R : Reference) (encoder : Text) (mac : Mac) (digits : Nat) : Text :=
  if Ecma.trim encoder = [] then Totp.code mac digits else R.encode encoder mac digits

/-- The code of RFC 6238 at a time; no period is no code. -/
def Reference.code (R : Reference) (bytes : List UInt8) (algorithm : Text) (digits period : Nat) (encoder : Text)
    (time : Nat) : Option Text :=
  if period = 0 then none
  else some (R.text encoder (R.mac algorithm bytes (Base32.beBytes 8 (time / period))) digits)

/-- The code that exported settings mean. -/
def OtpSettings.code (u : Ecma.UpperCase) (R : Reference) (settings : OtpSettings) (time : Nat) : Option Text :=
  match base32Decode u settings.secret with
  | .error _ => none
  | .ok bytes =>
    R.code bytes (Ecma.toUpperCase u (settings.algorithm.getD "SHA1".toList)) (settings.digits.getD 6)
      (settings.period.getD 30) (settings.encoder.getD []) time

/-- The period of an item; `none` is refused. -/
def periodOf : Option Number → Option Nat
  | none => some 30
  | some (.int period) => if 0 < period then some period.toNat else none
  | some _ => none

/-- The code that an item shows. -/
def TotpFields.code (u : Ecma.UpperCase) (R : Reference) (fields : TotpFields) (time : Nat) : Option Text :=
  match fields.totpSecret with
  | none => none
  | some secret =>
    match base32Decode u secret, periodOf fields.totpPeriod with
    | .ok bytes, some period =>
      R.code bytes (fields.totpAlgorithm.getD "SHA1").toList (fields.totpDigits.getD 6) period [] time
    | _, _ => none

inductive Provider where
  | bitwardenJson
  | bitwardenCsv (secureNote : Bool)
  | keepassxc
deriving DecidableEq, Repr

def importTotp (item : Source) (raw : Text) : Provider → TotpFields × List ImportWarning
  | .bitwardenJson => buildJsonLoginTotp P item (some raw)
  | .bitwardenCsv secureNote => bitwardenRowTotp P item secureNote raw
  | .keepassxc => keepassxcRowTotp P item raw

/-- The codes are the same at every time, or a warning names the item. -/
def FaithfulOrFlagged (R : Reference) (item : Source) (raw : Text) (value : OtpValue) (provider : Provider) : Prop :=
  (∃ warning ∈ (importTotp P item raw provider).2, warning.sourceItemId = item.itemId ∧ warning.title = item.title) ∨
    ∀ time, (importTotp P item raw provider).1.code P.upper R time = value.settings.code P.upper R time

/-! ## When an import is -/

/-- The provider can take the secret. -/
def Usable : OtpValue → Prop
  | .uri url settings => url.hostname = "totp".toList ∧ (P.decodeURIComponent (url.pathname.drop 1)).isSome = true ∧
    isValidBase32 P.upper settings.secret = true
  | .steam _ => False
  | .seed text => isValidBase32 P.upper text = true

namespace OtpSettings

def EncoderTaken (s : OtpSettings) : Prop := Ecma.trim (s.encoder.getD []) = []

def DigitsTaken (s : OtpSettings) : Prop := ∀ n ∈ s.digits, 6 ≤ n ∧ n ≤ 8

def AlgorithmTaken (u : Ecma.UpperCase) (s : OtpSettings) : Prop :=
  ∀ name ∈ s.algorithm, ∃ taken ∈ ["SHA1", "SHA256", "SHA512"], Ecma.toUpperCase u name = taken.toList

/-- Not 0, and a double. -/
def PeriodTaken (s : OtpSettings) : Prop := ∀ p ∈ s.period, p ≠ 0 ∧ Binary64.nearest p = some p

end OtpSettings

/-- The secret cannot be taken, or all settings are. KeePassXC's encoder and digits are checked; a secure note takes
no settings. -/
def Kept (value : OtpValue) (provider : Provider) : Prop :=
  Usable P value →
    match provider with
    | .bitwardenJson | .bitwardenCsv false => value.settings.EncoderTaken ∧ value.settings.DigitsTaken ∧
      value.settings.AlgorithmTaken P.upper ∧ value.settings.PeriodTaken
    | .bitwardenCsv true => value.settings.period = some 0
    | .keepassxc => value.settings.EncoderTaken → value.settings.DigitsTaken →
      value.settings.AlgorithmTaken P.upper ∧ value.settings.PeriodTaken

/-! ## What is read -/

section Read

variable {P}

theorem parseTotpValue_trim (raw : Text) : parseTotpValue P (Ecma.trim raw) = parseTotpValue P raw := by
  rw [parseTotpValue, Ecma.trim_trim]
  rfl

theorem noPadding_withoutSpace (u : Ecma.UpperCase) (text : Text) : noPadding u (withoutSpace text) = noPadding u text := by
  rw [noPadding, noPadding, withoutSpace, List.filter_filter]
  simp only [Bool.and_self]

theorem isValidBase32_withoutSpace (u : Ecma.UpperCase) (text : Text) :
    isValidBase32 u (withoutSpace text) = isValidBase32 u text := by
  rw [isValidBase32, isValidBase32, noPadding_withoutSpace]

theorem base32Decode_withoutSpace (u : Ecma.UpperCase) (text : Text) :
    base32Decode u (withoutSpace text) = base32Decode u text := by
  rw [base32Decode, base32Decode, noPadding_withoutSpace]

theorem base32Decode_of_isValidBase32 {u : Ecma.UpperCase} {text : Text} (h : isValidBase32 u text = true) :
    ∃ bytes, base32Decode u text = .ok bytes := by
  rw [isValidBase32, Bool.and_eq_true] at h
  exact ⟨_, base32Decode_ok fun c hc => List.contains_iff_mem.1 (List.all_eq_true.1 h.2 c hc)⟩

theorem isValidBase32_of_colon {u : Ecma.UpperCase} {text : Text} (h : ':' ∈ text) : isValidBase32 u text = false := by
  have hmem : ':' ∈ noPadding u text := by
    rw [noPadding_eq]
    refine List.mem_flatMap.2 ⟨':', (mem_digitsOf (by decide)).2 ⟨h, by decide⟩, ?_⟩
    rw [u.ascii ':' (by decide)]
    decide
  rw [isValidBase32, Bool.and_eq_false_iff]
  exact Or.inr (List.all_eq_false.2 ⟨':', hmem, by decide⟩)

theorem parseInt_repr (n : Nat) : Number.parseInt n.repr.toList =
    match Binary64.nearest n with
    | none => .infinite false
    | some rounded => .int rounded := by
  rw [Number.parseInt, Ecma.parseInt_repr]
  simp only [Int.natAbs_natCast]
  cases Binary64.nearest n with
  | none => simp
  | some rounded => simp

theorem digits_of_int (n : Nat) : (match Number.int n with
      | .int 6 => some 6
      | .int 7 => some 7
      | .int 8 => some 8
      | _ => none) = if 6 ≤ n ∧ n ≤ 8 then some n else none := by
  split
  · next heq =>
    obtain rfl : n = 6 := Int.ofNat_inj.1 (Number.int.inj heq)
    rfl
  · next heq =>
    obtain rfl : n = 7 := Int.ofNat_inj.1 (Number.int.inj heq)
    rfl
  · next heq =>
    obtain rfl : n = 8 := Int.ofNat_inj.1 (Number.int.inj heq)
    rfl
  · next hsix hseven height =>
    have h6 : n ≠ 6 := fun h => hsix (h ▸ rfl)
    have h7 : n ≠ 7 := fun h => hseven (h ▸ rfl)
    have h8 : n ≠ 8 := fun h => height (h ▸ rfl)
    rw [if_neg (by omega)]

/-- Only the digits that can be kept are. -/
theorem digitsOf_repr (n : Nat) : digitsOf (some n.repr.toList) = if 6 ≤ n ∧ n ≤ 8 then some n else none := by
  rw [digitsOf, Option.bind_some, parseInt_repr]
  rcases Nat.lt_or_ge n (2 ^ 53) with hsmall | hlarge
  · rw [Binary64.nearest_of_lt hsmall]
    exact digits_of_int n
  · have hout : ¬(6 ≤ n ∧ n ≤ 8) := fun h => absurd (hlarge.trans h.2) (by decide)
    rw [if_neg hout]
    cases hnearest : Binary64.nearest n with
    | none => rfl
    | some rounded =>
      have hout' : ¬(6 ≤ rounded ∧ rounded ≤ 8) := fun h =>
        absurd ((Binary64.le_of_nearest hlarge hnearest).trans h.2) (by decide)
      exact (digits_of_int rounded).trans (if_neg hout')

theorem nearest_pos {n rounded : Nat} (h : Binary64.nearest n = some rounded) : n ≠ 0 ↔ 0 < rounded := by
  rcases Nat.lt_or_ge n (2 ^ 53) with hsmall | hlarge
  · obtain rfl : n = rounded := Option.some.inj ((Binary64.nearest_of_lt hsmall).symm.trans h)
    exact Nat.pos_iff_ne_zero.symm
  · have hrounded := Binary64.le_of_nearest hlarge h
    have hpos := Nat.two_pow_pos 53
    omega

/-- The period that an item gets for one: 30 for none and for 0, and else the double. -/
theorem periodOf_repr (p : Option Nat) :
    periodOf ((((p.map fun n => n.repr.toList).map Number.parseInt).filter Number.isPositive).filter Number.isTruthy) =
      match p with
      | none | some 0 => some 30
      | some (n + 1) => Binary64.nearest (n + 1) := by
  cases p with
  | none => rfl
  | some n =>
    rw [Option.map_some, Option.map_some, parseInt_repr]
    cases n with
    | zero =>
      rw [Binary64.nearest_of_lt (by decide)]
      rfl
    | succ n =>
      dsimp only
      generalize hnearest : Binary64.nearest (n + 1) = nearest
      cases nearest with
      | none => rfl
      | some rounded =>
        have hpos : (0 : Int) < rounded := Int.natCast_pos.2 ((nearest_pos hnearest).1 (Nat.succ_ne_zero n))
        have hpositive : Number.isPositive (.int rounded) = true := decide_eq_true hpos
        have htruthy : Number.isTruthy (.int rounded) = true := decide_eq_true (by omega)
        simp only [Option.filter_some, hpositive, htruthy, if_true, periodOf, if_pos hpos, Int.toNat_natCast]

/-- The name that an item gets for one: that name, or SHA1 for none and for another. -/
theorem algorithmOf_taken {u : Ecma.UpperCase} {s : OtpSettings} (h : s.AlgorithmTaken u) :
    ((algorithmOf u s.algorithm).getD "SHA1").toList = Ecma.toUpperCase u (s.algorithm.getD "SHA1".toList) := by
  cases hname : s.algorithm with
  | none =>
    rw [algorithmOf, Option.bind_none, Option.getD_none, Option.getD_none, Ecma.toUpperCase_of_ascii (by simp)]
    decide
  | some name =>
    obtain ⟨taken, hmem, hsame⟩ := h name hname
    have hfind : (["SHA1", "SHA256", "SHA512"].find? fun taken => Ecma.toUpperCase u name = taken.toList) = some taken := by
      rw [hsame]
      fin_cases hmem <;> decide
    rw [algorithmOf, Option.bind_some, hfind, Option.getD_some, Option.getD_some, hsame]

theorem algorithmOf_not_taken {u : Ecma.UpperCase} {s : OtpSettings} (h : ¬s.AlgorithmTaken u) :
    ∃ name, s.algorithm = some name ∧ algorithmOf u s.algorithm = none ∧ Ecma.toUpperCase u name ≠ "SHA1".toList := by
  rw [OtpSettings.AlgorithmTaken] at h
  push Not at h
  obtain ⟨name, hname, hnone⟩ := h
  refine ⟨name, hname, ?_, hnone "SHA1" (by decide)⟩
  rw [hname, algorithmOf, Option.bind_some, List.find?_eq_none]
  exact fun taken hmem => by simpa using hnone taken hmem

theorem given_repr {url : Url} {key : String} {n : Option Nat}
    (h : url.searchParam key = n.map fun n => n.repr.toList) : url.given key = n.map fun n => n.repr.toList := by
  rw [Url.given, h]
  cases n with
  | none => rfl
  | some n =>
    have hne : n.repr.toList ≠ [] := by
      rw [Nat.toList_repr]
      exact Nat.toDigits_ne_nil
    rw [Option.map_some, Option.filter_some, if_pos (decide_eq_true hne)]

/-- What a provider takes of a value, and that it takes nothing else. -/
theorem parse_of_describes {raw : Text} {value : OtpValue} (h : Describes P raw value) :
    (¬Usable P value → parseTotpValue P raw = none) ∧
      (Usable P value → ∃ totp, parseTotpValue P raw = some totp ∧ totp.secret = withoutSpace value.settings.secret ∧
        totp.algorithm = algorithmOf P.upper value.settings.algorithm ∧
        totp.digits = digitsOf (value.settings.digits.map fun n => n.repr.toList) ∧
        totp.period = ((value.settings.period.map fun n => n.repr.toList).map Number.parseInt).filter Number.isPositive) := by
  cases h with
  | @uri url settings hne hprefix hurl hprotocol hsecret halgorithm hdigits hperiod hencoder =>
    have hgiven : url.given "secret" = if settings.secret = [] then none else some settings.secret := by
      rw [Url.given, hsecret, Option.filter_some]
      by_cases hempty : settings.secret = [] <;> simp [hempty]
    rw [parseTotpValue]
    simp only [hne, if_false, hprefix, if_true]
    rw [parseOtpAuthUri, hurl]
    simp only [hprotocol, ne_eq, not_true_eq_false, if_false, hgiven, halgorithm, given_repr hdigits, given_repr hperiod]
    by_cases hhost : url.hostname = "totp".toList
    · simp only [hhost, not_true_eq_false, false_and, if_false]
      cases hlabel : P.decodeURIComponent (url.pathname.drop 1) with
      | none => exact ⟨fun _ => rfl, fun husable => absurd husable.2.1 (by rw [hlabel]; exact Bool.false_ne_true)⟩
      | some label =>
        by_cases hempty : settings.secret = []
        · simp only [hempty, if_true]
          exact ⟨fun _ => trivial, fun husable => absurd husable.2.2 (by rw [hempty]; exact Bool.false_ne_true)⟩
        · simp only [hempty, if_false, isValidBase32_withoutSpace]
          cases hvalid : isValidBase32 P.upper settings.secret with
          | false => exact ⟨fun _ => rfl, fun husable => absurd (hvalid.symm.trans husable.2.2) Bool.false_ne_true⟩
          | true => exact ⟨fun hnot => absurd ⟨hhost, by rw [hlabel]; rfl, hvalid⟩ hnot, fun _ => ⟨_, rfl, rfl, rfl, rfl, rfl⟩⟩
    · refine ⟨fun _ => ?_, fun husable => absurd husable.1 hhost⟩
      -- another type of password is refused, by one check or the other
      by_cases hhotp : url.hostname = "hotp".toList
      · simp only [hhotp, not_true_eq_false, and_false, if_false]
        cases P.decodeURIComponent (url.pathname.drop 1) with
        | none => rfl
        | some label =>
          by_cases hempty : settings.secret = []
          · simp only [hempty, if_true]
          · simp only [hempty, if_false]
            exact if_pos (by decide)
      · simp only [hhost, hhotp, not_false_eq_true, and_self, if_true]
  | @steam rest hprefix htext =>
    have hne : Ecma.trim raw ≠ [] := by
      rw [htext]
      exact List.cons_ne_nil _ _
    have hcolon : ':' ∈ Ecma.trim raw := by
      rw [htext]
      exact List.mem_append_left _ (by decide)
    refine ⟨fun _ => ?_, fun h => h.elim⟩
    rw [parseTotpValue]
    simp only [hne, if_false, hprefix, Bool.false_eq_true, isValidBase32_withoutSpace, isValidBase32_of_colon hcolon, if_true]
  | seed hne hprefix hsteam =>
    rw [parseTotpValue]
    simp only [hne, if_false, hprefix, Bool.false_eq_true, isValidBase32_withoutSpace]
    cases hvalid : isValidBase32 P.upper (Ecma.trim raw) with
    | false => exact ⟨fun _ => rfl, fun h => absurd (hvalid.symm.trans h) Bool.false_ne_true⟩
    | true => exact ⟨fun h => absurd hvalid h, fun _ => ⟨_, rfl, rfl, rfl, rfl, rfl⟩⟩

theorem trim_ne_nil_of_describes {raw : Text} {value : OtpValue} (h : Describes P raw value) : Ecma.trim raw ≠ [] := by
  cases h with
  | uri hne => exact hne
  | steam _ htext =>
    rw [htext]
    exact List.cons_ne_nil _ _
  | seed hne => exact hne

theorem parseInt_unsupported (n : Nat) :
    (Number.parseInt n.repr.toList ≠ .int 6 && Number.parseInt n.repr.toList ≠ .int 7 &&
      Number.parseInt n.repr.toList ≠ .int 8) = true ↔ ¬(6 ≤ n ∧ n ≤ 8) := by
  rw [parseInt_repr]
  rcases Nat.lt_or_ge n (2 ^ 53) with hsmall | hlarge
  · rw [Binary64.nearest_of_lt hsmall]
    simp only [ne_eq, Number.int.injEq, Bool.and_eq_true, decide_eq_true_eq]
    omega
  · have hout : ¬(6 ≤ n ∧ n ≤ 8) := fun h => absurd (hlarge.trans h.2) (by decide)
    cases hnearest : Binary64.nearest n with
    | none => simp [hout]
    | some rounded =>
      have hrounded := Binary64.le_of_nearest hlarge hnearest
      have hpow : 8 < 2 ^ 53 := by decide
      simp only [ne_eq, Number.int.injEq, Bool.and_eq_true, decide_eq_true_eq]
      omega

/-- The settings that KeePassXC's values are checked for. -/
theorem hasUnsupportedTotpSettings_iff {uri : Text} {url : Url} {s : OtpSettings} (hurl : P.parseUrl uri = some url)
    (hdigits : url.searchParam "digits" = s.digits.map fun n => n.repr.toList)
    (hencoder : url.searchParam "encoder" = s.encoder) :
    hasUnsupportedTotpSettings P uri = true ↔ ¬(s.EncoderTaken ∧ s.DigitsTaken) := by
  rw [hasUnsupportedTotpSettings, hurl]
  simp only [hencoder, hdigits]
  rw [OtpSettings.EncoderTaken, OtpSettings.DigitsTaken]
  by_cases hblank : Ecma.trim (s.encoder.getD []) = []
  · rw [if_neg (not_not.2 hblank), not_and, forall_prop_of_true hblank]
    cases s.digits with
    | none => simp
    | some n => exact (parseInt_unsupported n).trans (by simp)
  · simp [hblank]

end Read

/-! ## Codes -/

section Codes

variable {u : Ecma.UpperCase} {R : Reference} {bytes : List UInt8} {s : OtpSettings}

/-- The period that an item gets; `none` is refused. -/
def importedPeriod (s : OtpSettings) : Option Nat := periodOf
  ((((s.period.map fun n => n.repr.toList).map Number.parseInt).filter Number.isPositive).filter Number.isTruthy)

/-- The code of an item, for the secret of its settings. -/
def importedCode (u : Ecma.UpperCase) (R : Reference) (bytes : List UInt8) (s : OtpSettings) (time : Nat) :
    Option Text :=
  (importedPeriod s).bind fun period =>
    R.code bytes ((algorithmOf u s.algorithm).getD "SHA1").toList
      ((digitsOf (s.digits.map fun n => n.repr.toList)).getD 6) period [] time

def exportedCode (u : Ecma.UpperCase) (R : Reference) (bytes : List UInt8) (s : OtpSettings) (time : Nat) :
    Option Text :=
  R.code bytes (Ecma.toUpperCase u (s.algorithm.getD "SHA1".toList)) (s.digits.getD 6) (s.period.getD 30)
    (s.encoder.getD []) time

theorem text_taken (h : s.EncoderTaken) (mac : Mac) (digits : Nat) :
    R.text (s.encoder.getD []) mac digits = Totp.code mac digits := if_pos h

theorem text_not_taken (h : ¬s.EncoderTaken) (mac : Mac) (digits : Nat) :
    R.text (s.encoder.getD []) mac digits = R.encode (s.encoder.getD []) mac digits := if_neg h

/-- All settings that are taken give the codes that they mean. -/
theorem same_codes (hencoder : s.EncoderTaken) (hdigits : s.DigitsTaken) (halgorithm : s.AlgorithmTaken u)
    (hperiod : s.PeriodTaken) (time : Nat) : importedCode u R bytes s time = exportedCode u R bytes s time := by
  have hperiod' : importedPeriod s = some (s.period.getD 30) := by
    rw [importedPeriod, periodOf_repr]
    cases hp : s.period with
    | none => rfl
    | some p =>
      obtain ⟨hne, hnearest⟩ := hperiod p hp
      cases p with
      | zero => exact absurd rfl hne
      | succ p => exact hnearest
  have hdigits' : (digitsOf (s.digits.map fun n => n.repr.toList)).getD 6 = s.digits.getD 6 := by
    cases hn : s.digits with
    | none => rfl
    | some n => rw [Option.map_some, digitsOf_repr, if_pos (hdigits n hn)]
  have htext (mac : Mac) (digits : Nat) : R.text [] mac digits = R.text (s.encoder.getD []) mac digits := by
    rw [text_taken hencoder, Reference.text, if_pos (show Ecma.trim [] = [] from rfl)]
  rw [importedCode, exportedCode, hperiod', Option.bind_some, algorithmOf_taken halgorithm, hdigits', Reference.code,
    Reference.code, htext]

/-- Other lengths are told from six digits. -/
theorem code_six_ne {n : Nat} (h : ¬(6 ≤ n ∧ n ≤ 8)) : Totp.code (Mac.constant 1) 6 ≠ Totp.code (Mac.constant 1) n := by
  rw [Totp.code, Totp.code, truncate_constant.2]
  rcases Nat.lt_or_ge n 6 with hsmall | hlarge
  · have hall : ∀ n < 6, (Nat.toDigits 10 (16843009 % 10 ^ 6)).leftpad 6 '0' ≠
        (Nat.toDigits 10 (16843009 % 10 ^ n)).leftpad n '0' := by decide
    exact hall n hsmall
  · intro heq
    have hlength := congrArg List.length heq
    have hsix : ((Nat.toDigits 10 ((16843009 : UInt32).toNat % 10 ^ 6)).leftpad 6 '0').length = 6 := by decide
    rw [hsix, List.length_leftpad] at hlength
    omega

theorem code_ne_nil (mac : Mac) (digits : Nat) : Totp.code mac digits ≠ [] := by
  rw [Totp.code, List.leftpad]
  exact List.append_ne_nil_of_right_ne_nil _ Nat.toDigits_ne_nil

/-- An item gets a period, and it is not 0. -/
theorem importedPeriod_pos {period : Nat} (h : importedPeriod s = some period) : period ≠ 0 := by
  rw [importedPeriod, periodOf_repr] at h
  split at h
  · obtain rfl := Option.some.inj h
    decide
  · obtain rfl := Option.some.inj h
    decide
  · exact Nat.ne_of_gt ((nearest_pos h).1 (Nat.succ_ne_zero _))

theorem importedCode_eq {period : Nat} (h : importedPeriod s = some period) (time : Nat) :
    importedCode u R bytes s time = some (Totp.code (R.mac ((algorithmOf u s.algorithm).getD "SHA1").toList bytes
      (Base32.beBytes 8 (time / period))) ((digitsOf (s.digits.map fun n => n.repr.toList)).getD 6)) := by
  rw [importedCode, h, Option.bind_some, Reference.code, if_neg (importedPeriod_pos h), Reference.text,
    if_pos (show Ecma.trim [] = [] from rfl)]

/-- Same codes need all settings to be taken: each that is not is told by some hash function or encoder. -/
theorem taken_of_same_codes (h : ∀ R time, importedCode u R bytes s time = exportedCode u R bytes s time) :
    s.EncoderTaken ∧ s.DigitsTaken ∧ s.AlgorithmTaken u ∧ s.PeriodTaken := by
  have hfirst := h ⟨fun _ _ _ => Mac.constant 1, fun _ _ _ => []⟩ 0
  -- both have a period
  have hexported : s.period.getD 30 ≠ 0 := by
    intro hzero
    have hsome : s.period = some 0 := by
      cases hp : s.period with
      | none => exact absurd (hp ▸ hzero) (by decide)
      | some p => exact congrArg some (by simpa [hp] using hzero)
    have himported : importedPeriod s = some 30 := by rw [importedPeriod, periodOf_repr, hsome]
    rw [importedCode_eq himported, exportedCode, Reference.code, if_pos hzero] at hfirst
    cases hfirst
  obtain ⟨period, himported⟩ : ∃ period, importedPeriod s = some period := by
    cases hp : importedPeriod s with
    | some period => exact ⟨period, rfl⟩
    | none =>
      rw [importedCode, hp, exportedCode, Reference.code, if_neg hexported] at hfirst
      cases hfirst
  have hsame (R : Reference) (time : Nat) := h R time
  simp only [importedCode_eq himported, exportedCode, Reference.code, if_neg hexported, Option.some.injEq] at hsame hfirst
  have hencoder : s.EncoderTaken := by
    by_contra hnot
    rw [text_not_taken hnot] at hfirst
    exact code_ne_nil _ _ hfirst
  simp only [text_taken hencoder] at hsame hfirst
  have hdigits : s.DigitsTaken := by
    intro n hn
    by_contra hnot
    rw [hn, Option.map_some, digitsOf_repr, if_neg hnot] at hfirst
    exact code_six_ne hnot hfirst
  have hdigits' : (digitsOf (s.digits.map fun n => n.repr.toList)).getD 6 = s.digits.getD 6 ∧
      6 ≤ s.digits.getD 6 ∧ s.digits.getD 6 ≤ 8 := by
    cases hn : s.digits with
    | none => exact ⟨rfl, by decide, by decide⟩
    | some n =>
      rw [Option.map_some, digitsOf_repr, if_pos (hdigits n hn)]
      exact ⟨rfl, hdigits n hn⟩
  rw [hdigits'.1] at hsame
  have halgorithm : s.AlgorithmTaken u := by
    by_contra hnot
    obtain ⟨name, hname, hnone, hother⟩ := algorithmOf_not_taken hnot
    have htold := hsame ⟨fun algorithm _ _ => if algorithm = "SHA1".toList then Mac.constant 0 else Mac.constant 1,
      fun _ _ _ => []⟩ 0
    rw [hnone, hname, Option.getD_none, Option.getD_some] at htold
    dsimp only at htold
    rw [if_pos rfl, if_neg hother] at htold
    exact code_ne hdigits'.2 htold
  refine ⟨hencoder, hdigits, halgorithm, fun p hp => ?_⟩
  -- of two periods the larger one is still at 0 when the smaller one has passed
  have hequal : period = p := by
    have hne := importedPeriod_pos himported
    rw [hp, Option.getD_some] at hexported hsame
    by_contra hdiffer
    have htold := hsame ⟨fun _ _ message => if message = Base32.beBytes 8 0 then Mac.constant 0 else Mac.constant 1,
      fun _ _ _ => []⟩ (min period p)
    have hone : Base32.beBytes 8 1 ≠ Base32.beBytes 8 0 := by decide
    dsimp only at htold
    rcases Nat.lt_or_gt_of_ne hdiffer with hlt | hlt
    · rw [Nat.min_eq_left (Nat.le_of_lt hlt), Nat.div_self (Nat.pos_of_ne_zero hne), Nat.div_eq_of_lt hlt, if_neg hone,
        if_pos rfl] at htold
      exact code_ne hdigits'.2 htold.symm
    · rw [Nat.min_eq_right (Nat.le_of_lt hlt), Nat.div_self (Nat.pos_of_ne_zero hexported), Nat.div_eq_of_lt hlt,
        if_neg hone, if_pos rfl] at htold
      exact code_ne hdigits'.2 htold
  rw [hp, Option.getD_some] at hexported
  refine ⟨hexported, ?_⟩
  rw [importedPeriod, periodOf_repr, hp, hequal] at himported
  cases p with
  | zero => exact absurd rfl hexported
  | succ p => simpa only using himported

end Codes

/-! ## The providers -/

variable {P}

/-- The code of the item that a provider makes of a value that it can take. -/
theorem code_of_totp {value : OtpValue} {totp : ParsedTotpValue}
    (hsecret : totp.secret = withoutSpace value.settings.secret)
    (halgorithm : totp.algorithm = algorithmOf P.upper value.settings.algorithm)
    (hdigits : totp.digits = digitsOf (value.settings.digits.map fun n => n.repr.toList))
    (hperiod : totp.period =
      ((value.settings.period.map fun n => n.repr.toList).map Number.parseInt).filter Number.isPositive)
    {bytes : List UInt8} (hbytes : base32Decode P.upper value.settings.secret = .ok bytes) (R : Reference) (time : Nat) :
    (buildTotpFields (some totp)).code P.upper R time = importedCode P.upper R bytes value.settings time := by
  simp only [TotpFields.code, buildTotpFields, hsecret, base32Decode_withoutSpace, hbytes, halgorithm, hdigits, hperiod]
  rw [importedCode, importedPeriod]
  generalize periodOf _ = period
  cases period <;> rfl

theorem code_of_settings {settings : OtpSettings} {u : Ecma.UpperCase} {bytes : List UInt8}
    (hbytes : base32Decode u settings.secret = .ok bytes) (R : Reference) (time : Nat) :
    settings.code u R time = exportedCode u R bytes settings time := by
  simp only [OtpSettings.code, hbytes, exportedCode]

theorem eq_of_mem_ite {p : Prop} [Decidable p] {warning other : ImportWarning}
    (h : warning ∈ if p then [other] else []) : warning = other := by
  by_cases hp : p
  · rw [if_pos hp] at h
    exact List.mem_singleton.1 h
  · rw [if_neg hp] at h
    cases h

/-- The warnings are about the item. -/
theorem flagged_iff {item : Source} {raw : Text} {provider : Provider} :
    (∃ warning ∈ (importTotp P item raw provider).2, warning.sourceItemId = item.itemId ∧ warning.title = item.title) ↔
      (importTotp P item raw provider).2 ≠ [] := by
  constructor
  · rintro ⟨warning, hwarning, -⟩ hnil
    rw [hnil] at hwarning
    cases hwarning
  · intro hne
    obtain ⟨warning, hwarning⟩ := List.exists_mem_of_ne_nil _ hne
    refine ⟨warning, hwarning, ?_⟩
    suffices h : ∃ code, warning = item.warning code by
      obtain ⟨code, rfl⟩ := h
      exact ⟨rfl, rfl⟩
    cases provider with
    | bitwardenJson | bitwardenCsv =>
      exact ⟨_, eq_of_mem_ite hwarning⟩
    | keepassxc =>
      rcases List.mem_append.1 hwarning with hwarning | hwarning
      · exact ⟨_, eq_of_mem_ite hwarning⟩
      · exact ⟨_, eq_of_mem_ite hwarning⟩

/-- What a provider makes of a value that is not blank. -/
theorem importTotp_eq {item : Source} {raw : Text} (hne : Ecma.trim raw ≠ []) (provider : Provider) :
    importTotp P item raw provider =
      let totp := parseTotpValue P raw
      let missing := if totp = none then [item.warning .totpSecretMissing] else []
      match provider with
      | .bitwardenJson | .bitwardenCsv false => (buildTotpFields totp, missing)
      | .bitwardenCsv true => ({}, missing)
      | .keepassxc => (buildTotpFields totp, missing ++
          if totp.isSome ∧ hasUnsupportedTotpSettings P (Ecma.trim raw) then [item.warning .totpSettingsUnsupported]
          else []) := by
  cases provider with
  | bitwardenJson =>
    have hgiven : ((some raw).map Ecma.trim).filter (· ≠ []) = some (Ecma.trim raw) := by
      rw [Option.map_some, Option.filter_some, if_pos (decide_eq_true hne)]
    simp only [importTotp, buildJsonLoginTotp, hgiven, Option.bind_some, parseTotpValue_trim, Option.isSome_some, true_and]
  | bitwardenCsv secureNote =>
    cases secureNote <;>
      simp only [importTotp, bitwardenRowTotp, hne, if_false, parseTotpValue_trim, ne_eq, not_false_eq_true, true_and,
        if_true, Bool.false_eq_true]
  | keepassxc =>
    simp only [importTotp, keepassxcRowTotp, hne, if_false, parseTotpValue_trim, ne_eq, not_false_eq_true, true_and]

/-- An import without a warning is faithful exactly if its codes are the exported ones. -/
theorem faithful_iff_of_silent {item : Source} {raw : Text} {value : OtpValue} {provider : Provider}
    (h : (importTotp P item raw provider).2 = []) (R : Reference) :
    FaithfulOrFlagged P R item raw value provider ↔
      ∀ time, (importTotp P item raw provider).1.code P.upper R time = value.settings.code P.upper R time := by
  rw [FaithfulOrFlagged, flagged_iff]
  exact or_iff_right (not_not.2 h)

/-- A silent import of a value that can be taken is faithful exactly if all settings are. -/
theorem taken_iff_of_silent {item : Source} {raw : Text} {value : OtpValue} {provider : Provider}
    {totp : ParsedTotpValue} (himport : importTotp P item raw provider = (buildTotpFields (some totp), []))
    (hsecret : totp.secret = withoutSpace value.settings.secret)
    (halgorithm : totp.algorithm = algorithmOf P.upper value.settings.algorithm)
    (hdigits : totp.digits = digitsOf (value.settings.digits.map fun n => n.repr.toList))
    (hperiod : totp.period =
      ((value.settings.period.map fun n => n.repr.toList).map Number.parseInt).filter Number.isPositive)
    {bytes : List UInt8} (hbytes : base32Decode P.upper value.settings.secret = .ok bytes) :
    (∀ R, FaithfulOrFlagged P R item raw value provider) ↔
      value.settings.EncoderTaken ∧ value.settings.DigitsTaken ∧ value.settings.AlgorithmTaken P.upper ∧
        value.settings.PeriodTaken := by
  have hcodes (R : Reference) : FaithfulOrFlagged P R item raw value provider ↔
      ∀ time, importedCode P.upper R bytes value.settings time = exportedCode P.upper R bytes value.settings time := by
    rw [faithful_iff_of_silent (by rw [himport])]
    refine forall_congr' fun time => ?_
    rw [himport, code_of_totp hsecret halgorithm hdigits hperiod hbytes, code_of_settings hbytes]
  simp only [hcodes]
  exact ⟨taken_of_same_codes, fun ⟨hencoder, hdigits, halgorithm, hperiod⟩ R time =>
    same_codes hencoder hdigits halgorithm hperiod time⟩

/-- No code at all is what settings without a period mean. -/
theorem no_code_iff {u : Ecma.UpperCase} {settings : OtpSettings} {bytes : List UInt8}
    (hbytes : base32Decode u settings.secret = .ok bytes) :
    (∀ R time, none = settings.code u R time) ↔ settings.period = some 0 := by
  simp only [code_of_settings hbytes, exportedCode, Reference.code]
  constructor
  · intro h
    have hfirst := h ⟨fun _ _ _ => Mac.constant 1, fun _ _ _ => []⟩ 0
    by_cases hzero : settings.period.getD 30 = 0
    · cases hp : settings.period with
      | none => exact absurd (hp ▸ hzero) (by decide)
      | some p => exact congrArg some (by simpa [hp] using hzero)
    · rw [if_neg hzero] at hfirst
      cases hfirst
  · intro h R time
    rw [h, Option.getD_some, if_pos rfl]

/-- What KeePassXC's check warns about, it warns about. -/
theorem checked_of_unsupported {raw : Text} {value : OtpValue} (h : Describes P raw value)
    (hunsupported : hasUnsupportedTotpSettings P (Ecma.trim raw) = true) :
    value.settings.EncoderTaken → value.settings.DigitsTaken →
      value.settings.AlgorithmTaken P.upper ∧ value.settings.PeriodTaken := by
  intro hencoder hdigits
  cases h with
  | uri _ _ hurl _ _ _ hdigits' _ hencoder' =>
    exact absurd ⟨hencoder, hdigits⟩ ((hasUnsupportedTotpSettings_iff hurl hdigits' hencoder').1 hunsupported)
  | steam => exact ⟨fun _ h => (nomatch h), fun _ h => (nomatch h)⟩
  | seed => exact ⟨fun _ h => (nomatch h), fun _ h => (nomatch h)⟩

theorem checked_of_supported {raw : Text} {value : OtpValue} (h : Describes P raw value) (husable : Usable P value)
    (hsupported : hasUnsupportedTotpSettings P (Ecma.trim raw) = false) :
    value.settings.EncoderTaken ∧ value.settings.DigitsTaken := by
  cases h with
  | uri _ _ hurl _ _ _ hdigits _ hencoder =>
    by_contra hnot
    rw [(hasUnsupportedTotpSettings_iff hurl hdigits hencoder).2 hnot] at hsupported
    cases hsupported
  | steam => exact husable.elim
  | seed => exact ⟨rfl, fun _ h => (nomatch h)⟩

/-- **A provider makes an item with the exported codes or warns about it, whatever the names in the settings stand for,
exactly if it cannot take the secret or takes all settings; only KeePassXC's values are checked for the encoder and
the digits.** -/
theorem import_faithful_iff (item : Source) {raw : Text} {value : OtpValue} (h : Describes P raw value)
    (provider : Provider) :
    (∀ R, FaithfulOrFlagged P R item raw value provider) ↔ Kept P value provider := by
  have himport := @importTotp_eq P item raw (trim_ne_nil_of_describes h) provider
  obtain ⟨hnot, htaken⟩ := parse_of_describes h
  by_cases husable : Usable P value
  · obtain ⟨totp, htotp, hsecret, halgorithm, hdigits, hperiod⟩ := htaken husable
    have hvalid : isValidBase32 P.upper value.settings.secret = true := by
      cases value with
      | uri => exact husable.2.2
      | steam => exact husable.elim
      | seed => exact husable
    obtain ⟨bytes, hbytes⟩ := base32Decode_of_isValidBase32 hvalid
    rw [htotp] at himport
    simp only [reduceCtorEq, if_false, Option.isSome_some, true_and, List.nil_append] at himport
    rw [Kept.eq_def, forall_prop_of_true husable]
    cases provider with
    | bitwardenJson => exact taken_iff_of_silent himport hsecret halgorithm hdigits hperiod hbytes
    | bitwardenCsv secureNote =>
      cases secureNote with
      | false => exact taken_iff_of_silent himport hsecret halgorithm hdigits hperiod hbytes
      | true =>
        -- the settings are dropped without a word
        simp only [faithful_iff_of_silent (congrArg Prod.snd himport), himport]
        exact no_code_iff hbytes
    | keepassxc =>
      cases hunsupported : hasUnsupportedTotpSettings P (Ecma.trim raw) with
      | true =>
        refine iff_of_true (fun R => Or.inl ?_) ?_
        · rw [flagged_iff, himport, hunsupported, if_pos rfl]
          exact List.cons_ne_nil _ _
        · exact checked_of_unsupported h hunsupported
      | false =>
        rw [hunsupported] at himport
        rw [taken_iff_of_silent himport hsecret halgorithm hdigits hperiod hbytes]
        have hchecked := checked_of_supported h husable hunsupported
        exact ⟨fun h _ _ => h.2.2, fun h => ⟨hchecked.1, hchecked.2, h hchecked.1 hchecked.2⟩⟩
  · refine iff_of_true (fun R => Or.inl ?_) fun h => absurd h husable
    rw [hnot husable] at himport
    rw [flagged_iff, himport]
    cases provider with
    | bitwardenJson | keepassxc => simp
    | bitwardenCsv secureNote => cases secureNote <;> simp

/-- A platform that knows one URI. -/
def plainPlatform (uri : Text) (url : Url) : Platform where
  upper := Ecma.UpperCase.least
  toLowerCase := id
  parseUrl text := if text = uri then some url else none
  decodeURIComponent := some

def plainReference : Reference where
  mac _ _ _ := Mac.constant 1
  encode _ _ _ := []

/-- A seed, which every provider takes. -/
theorem import_faithful_seed :
    FaithfulOrFlagged (plainPlatform [] ⟨[], [], [], fun _ => none⟩) plainReference ⟨[], [], []⟩ "AAAA".toList
      (.seed "AAAA".toList) .keepassxc :=
  (import_faithful_iff ⟨[], [], []⟩ (.seed (by decide) (by decide) (by decide)) .keepassxc).2
    (fun _ _ _ => ⟨fun _ h => (nomatch h), fun _ h => (nomatch h)⟩) plainReference

def tenDigits : Url where
  protocol := "otpauth:".toList
  hostname := "totp".toList
  pathname := "/a".toList
  searchParam key := if key = "secret" then some "AAAA".toList else if key = "digits" then some "10".toList else none

/-- Bitwarden's value of ten digits: the item shows six. -/
theorem import_unfaithful : ¬∀ (P : Platform) (R : Reference) (item : Source) (raw : Text) (value : OtpValue)
    (provider : Provider), Describes P raw value → FaithfulOrFlagged P R item raw value provider := by
  intro h
  let uri := "otpauth://totp/a?secret=AAAA&digits=10".toList
  have hparse : (plainPlatform uri tenDigits).parseUrl (Ecma.trim uri) = some tenDigits :=
    show (if Ecma.trim uri = uri then some tenDigits else none) = some tenDigits from if_pos (by decide)
  have hdescribes : Describes (plainPlatform uri tenDigits) uri
      (.uri tenDigits { secret := "AAAA".toList, digits := some 10 }) :=
    .uri (by decide) (by decide) hparse rfl (by decide) (by decide) (by decide) (by decide) (by decide)
  rcases h _ plainReference ⟨[], [], []⟩ uri _ .bitwardenJson hdescribes with hflagged | hsame
  · have hsilent : (importTotp (plainPlatform uri tenDigits) ⟨[], [], []⟩ uri .bitwardenJson).2 = [] := by decide +kernel
    exact flagged_iff.1 hflagged hsilent
  · exact absurd (hsame 0) (by decide +kernel)

end Bittery.ImportTotp
