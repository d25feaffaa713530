/-
One-time passwords at a time, from `totp.rs`. The reader of the secrets is in `SecretTexts`.
-/
import Bittery.Crypto.SecretTexts
import Bittery.Lib.Ecma
import Bittery.Lib.Mac

namespace Bittery.CryptoCore

open Lib

def MIN_TOTP_DIGITS : UInt32 := 6

def MAX_TOTP_DIGITS : UInt32 := 8

def validateDigits (digits : UInt32) : Except TotpFailure Unit :=
  if MIN_TOTP_DIGITS ≤ digits ∧ digits ≤ MAX_TOTP_DIGITS then .ok ()
  else .error (.error (.invalidInput s!"Invalid TOTP digits: expected {MIN_TOTP_DIGITS}-{MAX_TOTP_DIGITS}, got {digits}"))

def validatePeriod (period : UInt64) : Except TotpFailure Unit :=
  if period = 0 then .error (.error (.invalidInput "Invalid TOTP period: expected at least 1 second, got 0"))
  else .ok ()

/-- The hash function of a name, in either case. -/
def hashOf (u : Ecma.UpperCase) (algorithm : String) : HashFunction :=
  let name := Ecma.toUpperCase u algorithm.toList
  if name = "SHA256".toList then .sha256
  else if name = "SHA512".toList then .sha512
  else .sha1

def truncate (hash : Mac) : UInt32 :=
  ((hash.byte 0).toUInt32 &&& 0x7f) <<< 24 ||| ((hash.byte 1).toUInt32 &&& 0xff) <<< 16 |||
    ((hash.byte 2).toUInt32 &&& 0xff) <<< 8 ||| ((hash.byte 3).toUInt32 &&& 0xff)

variable (u : Ecma.UpperCase) (hmac : Hmac)

def hotp (secret : List UInt8) (counter : UInt64) (algorithm : String) (digits : UInt32) :
    Except TotpFailure (List Char) := do
  validateDigits digits
  let counterBytes := Base32.beBytes 8 counter.toNat
  let hash := hmac (hashOf u algorithm) secret counterBytes
  let modulus := 10 ^ digits.toNat
  let otp := (truncate hash).toNat % modulus
  return (Nat.toDigits 10 otp).leftpad digits.toNat '0'

def generateTotpAt (secret algorithm : String) (digits : UInt32) (period timestamp : UInt64) :
    Except TotpFailure (List Char) := do
  validateDigits digits
  validatePeriod period
  let secretBytes ← base32Decode secret
  let counter := timestamp / period
  hotp u hmac secretBytes counter algorithm digits

end Bittery.CryptoCore
