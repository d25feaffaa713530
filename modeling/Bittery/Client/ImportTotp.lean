/-
One-time passwords in imports: `parseOtpAuthUri` of `totp.ts`, `parseTotpValue` of `lib/import/normalize.ts`, and what
the providers of Bitwarden and KeePassXC make of a value.

The URL parser, `decodeURIComponent` and the mapping to lower case are the platform's. Numbers are integers, rounded
to doubles where they are read.
-/
import Bittery.Client.Totp

namespace Bittery.ImportTotp

open Lib Totp

/-- What is read of a URL. -/
structure Url where
  protocol : Text
  hostname : Text
  pathname : Text
  searchParam : String → Option Text

structure Platform where
  upper : Ecma.UpperCase
  toLowerCase : Text → Text
  parseUrl : Text → Option Url
  decodeURIComponent : Text → Option Text

/-- A number that `parseInt` answers. -/
inductive Number where
  | nan
  | infinite (negative : Bool)
  | int (value : Int)
deriving DecidableEq, Repr

def Number.parseInt (text : Text) : Number :=
  match Ecma.parseInt text with
  | none => .nan
  | some value =>
    match Binary64.nearest value.natAbs with
    | none => .infinite (value < 0)
    | some rounded => .int (if value < 0 then -rounded else rounded)

/-- `number && number > 0` -/
def Number.isPositive : Number → Bool
  | .nan => false
  | .infinite negative => !negative
  | .int value => 0 < value

def Number.isTruthy : Number → Bool
  | .nan => false
  | .infinite _ => true
  | .int value => value ≠ 0

structure ParsedOtpAuthUri where
  type : Text
  secret : Text
  issuer : Option Text
  accountName : Text
  algorithm : Option String
  digits : Option Nat
  period : Option Number
  counter : Option Number
deriving DecidableEq, Repr

/-- A parameter that is there and not empty. -/
def Url.given (url : Url) (key : String) : Option Text := (url.searchParam key).filter (· ≠ [])

/-- The name of a hash function, in any case. -/
def algorithmOf (u : Ecma.UpperCase) (param : Option Text) : Option String :=
  param.bind fun text => ["SHA1", "SHA256", "SHA512"].find? fun name => Ecma.toUpperCase u text = name.toList

def digitsOf (param : Option Text) : Option Nat :=
  param.bind fun text =>
    match Number.parseInt text with
    | .int 6 => some 6
    | .int 7 => some 7
    | .int 8 => some 8
    | _ => none

/-- `none` is an error, of whatever text. -/
def parseOtpAuthUri (P : Platform) (uri : Text) : Option ParsedOtpAuthUri :=
  match P.parseUrl uri with
  | none => none
  | some url =>
    if url.protocol ≠ "otpauth:".toList then none
    else if url.hostname ≠ "totp".toList ∧ url.hostname ≠ "hotp".toList then none
    else
      match P.decodeURIComponent (url.pathname.drop 1) with
      | none => none
      | some label =>
        let (issuer, accountName) :=
          if ':' ∈ label then (some (label.takeWhile (· ≠ ':')), (label.dropWhile (· ≠ ':')).drop 1) else (none, label)
        match url.given "secret" with
        | none => none
        | some secret => some {
            type := url.hostname
            secret
            issuer := (url.given "issuer").or issuer
            accountName
            algorithm := algorithmOf P.upper (url.searchParam "algorithm")
            digits := digitsOf (url.given "digits")
            period := (url.given "period").map Number.parseInt
            counter := (url.given "counter").map Number.parseInt }

structure ParsedTotpValue where
  secret : Text
  issuer : Option Text
  accountName : Option Text
  algorithm : Option String
  digits : Option Nat
  period : Option Number
deriving DecidableEq, Repr

def isValidBase32 (u : Ecma.UpperCase) (input : Text) : Bool :=
  let sanitized := noPadding u input
  sanitized ≠ [] && sanitized.all BASE32_ALPHABET.contains

def withoutSpace (text : Text) : Text := text.filter fun c => !Ecma.isSpace c

def isOtpAuth (P : Platform) (trimmed : Text) : Bool := "otpauth://".toList.isPrefixOf (P.toLowerCase trimmed)

def parseTotpValue (P : Platform) (raw : Text) : Option ParsedTotpValue :=
  let trimmed := Ecma.trim raw
  if trimmed = [] then none
  else if isOtpAuth P trimmed then
    match parseOtpAuthUri P trimmed with
    | none => none
    | some parsed =>
      if parsed.type ≠ "totp".toList then none
      else
        let secret := withoutSpace parsed.secret
        if isValidBase32 P.upper secret = false then none
        else some {
          secret
          issuer := parsed.issuer.filter (· ≠ [])
          accountName := if parsed.accountName = [] then none else some parsed.accountName
          algorithm := parsed.algorithm
          digits := parsed.digits
          period := parsed.period.filter Number.isPositive }
  else
    let secret := withoutSpace trimmed
    if isValidBase32 P.upper secret = false then none
    else some { secret, issuer := none, accountName := none, algorithm := none, digits := none, period := none }

/-! ## The providers -/

/-- The fields of an item that are about one-time passwords. -/
structure TotpFields where
  totpSecret : Option Text := none
  totpIssuer : Option Text := none
  totpAccountName : Option Text := none
  totpAlgorithm : Option String := none
  totpDigits : Option Nat := none
  totpPeriod : Option Number := none
deriving DecidableEq, Repr

/-- An absent, empty or zero value makes no field. -/
def buildTotpFields : Option ParsedTotpValue → TotpFields
  | none => {}
  | some totp => {
      totpSecret := some totp.secret
      totpIssuer := totp.issuer.filter (· ≠ [])
      totpAccountName := totp.accountName.filter (· ≠ [])
      totpAlgorithm := totp.algorithm
      totpDigits := totp.digits
      totpPeriod := totp.period.filter Number.isTruthy }

inductive WarningCode where
  | totpSecretMissing
  | totpSettingsUnsupported
deriving DecidableEq, Repr

structure ImportWarning where
  code : WarningCode
  title : Text
  sourceVaultId : Text
  sourceItemId : Text
deriving DecidableEq, Repr

/-- The item that a value is of. -/
structure Source where
  title : Text
  vaultId : Text
  itemId : Text

def Source.warning (item : Source) (code : WarningCode) : ImportWarning where
  code
  title := item.title
  sourceVaultId := item.vaultId
  sourceItemId := item.itemId

/-- The value of a login in a JSON export; `none` where it has no text. -/
def buildJsonLoginTotp (P : Platform) (item : Source) (login : Option Text) : TotpFields × List ImportWarning :=
  let rawTotp := (login.map Ecma.trim).filter (· ≠ [])
  let totp := rawTotp.bind (parseTotpValue P)
  (buildTotpFields totp, if rawTotp.isSome ∧ totp = none then [item.warning .totpSecretMissing] else [])

/-- The value of a row of Bitwarden's CSV. A secure note takes none. -/
def bitwardenRowTotp (P : Platform) (item : Source) (secureNote : Bool) (column : Text) :
    TotpFields × List ImportWarning :=
  let rawTotp := Ecma.trim column
  let totp := if rawTotp = [] then none else parseTotpValue P rawTotp
  (if secureNote then {} else buildTotpFields totp,
    if rawTotp ≠ [] ∧ totp = none then [item.warning .totpSecretMissing] else [])

def hasUnsupportedTotpSettings (P : Platform) (rawTotp : Text) : Bool :=
  match P.parseUrl rawTotp with
  | none => false
  | some url =>
    if Ecma.trim ((url.searchParam "encoder").getD []) ≠ [] then true
    else
      match url.searchParam "digits" with
      | none => false
      | some digits =>
        let parsed := Number.parseInt digits
        parsed ≠ .int 6 && parsed ≠ .int 7 && parsed ≠ .int 8

def keepassxcRowTotp (P : Platform) (item : Source) (column : Text) : TotpFields × List ImportWarning :=
  let rawTotp := Ecma.trim column
  let totp := if rawTotp = [] then none else parseTotpValue P rawTotp
  (buildTotpFields totp,
    (if rawTotp ≠ [] ∧ totp = none then [item.warning .totpSecretMissing] else []) ++
      if totp.isSome ∧ hasUnsupportedTotpSettings P rawTotp then [item.warning .totpSettingsUnsupported] else [])

end Bittery.ImportTotp
