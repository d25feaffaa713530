/-
One-time passwords in the clients, from `totp.ts`.

A number is a natural one that a double holds. Dividing such a number by 256 is exact.
-/
import Bittery.Lib.Base32
import Bittery.Lib.Binary64
import Bittery.Lib.Ecma
import Bittery.Lib.Mac
import Bittery.Lib.ShiftRegister

namespace Bittery.Totp

open Lib

abbrev Text := List Char

/-- What an error says. -/
abbrev Failure := Text

structure TotpOptions where
  secret : Text
  algorithm : Option String
  digits : Option Nat
  period : Option Nat
deriving DecidableEq, Repr

def BASE32_ALPHABET : List Char := "ABCDEFGHIJKLMNOPQRSTUVWXYZ234567".toList

def MIN_TOTP_DIGITS : Nat := 6

def MAX_TOTP_DIGITS : Nat := 8

def assertValidDigits (digits : Nat) : Except Failure Unit :=
  if digits < MIN_TOTP_DIGITS ∨ MAX_TOTP_DIGITS < digits then
    .error s!"Invalid TOTP digits: expected {MIN_TOTP_DIGITS}-{MAX_TOTP_DIGITS}, got {digits}".toList
  else .ok ()

def assertValidPeriod (period : Nat) : Except Failure Unit :=
  if period < 1 then .error s!"Invalid TOTP period: expected at least 1 second, got {period}".toList
  else .ok ()

/-! ## Base32 -/

/-- The digits of a text, before they are checked. -/
def noPadding (u : Ecma.UpperCase) (input : Text) : Text :=
  (Ecma.toUpperCase u (input.filter fun c => !Ecma.isSpace c)).rdropWhile (· = '=')

structure Base32Loop where
  output : List UInt8
  buffer : BitVec 32
  bitsLeft : Nat
  outputIndex : Nat

/-- A digit; a byte that the output has no room for is not stored. -/
def Base32Loop.step (s : Base32Loop) (char : Char) : Base32Loop :=
  let value := BASE32_ALPHABET.idxOf char
  let buffer := s.buffer <<< 5 ||| BitVec.ofNat 32 value
  let bitsLeft := s.bitsLeft + 5
  if 8 ≤ bitsLeft then
    let bitsLeft := bitsLeft - 8
    { output := s.output.set s.outputIndex (UInt8.ofNat (buffer.sshiftRight bitsLeft &&& 0xff#32).toNat), buffer, bitsLeft,
      outputIndex := s.outputIndex + 1 }
  else { s with buffer, bitsLeft }

def base32Decode (u : Ecma.UpperCase) (input : Text) : Except Failure (List UInt8) :=
  let noPadding := noPadding u input
  if noPadding = [] then .ok []
  else
    match noPadding.find? fun char => !BASE32_ALPHABET.contains char with
    | some char => .error ("Invalid base32 character: ".toList ++ [char])
    | none =>
      let outputLength := noPadding.length * 5 / 8
      .ok (noPadding.foldl Base32Loop.step
        { output := List.replicate outputLength 0, buffer := 0, bitsLeft := 0, outputIndex := 0 }).output

def digit (value : Nat) : Char := BASE32_ALPHABET.getD value 'A'

/-- The digits that the bits of the buffer make, and how many bits are left. -/
def emit (buffer : BitVec 32) : Nat → Text × Nat
  | bitsLeft + 5 =>
    let (rest, left) := emit buffer bitsLeft
    (digit (buffer.sshiftRight bitsLeft &&& 0x1f#32).toNat :: rest, left)
  | bitsLeft => ([], bitsLeft)

structure EncodeLoop where
  result : Text
  buffer : BitVec 32
  bitsLeft : Nat

def EncodeLoop.step (s : EncodeLoop) (byte : UInt8) : EncodeLoop :=
  let buffer := s.buffer <<< 8 ||| BitVec.ofNat 32 byte.toNat
  let (digits, bitsLeft) := emit buffer (s.bitsLeft + 8)
  { result := s.result ++ digits, buffer, bitsLeft }

def base32Encode (input : List UInt8) : Text :=
  let s := input.foldl EncodeLoop.step { result := [], buffer := 0, bitsLeft := 0 }
  if 0 < s.bitsLeft then s.result ++ [digit (s.buffer <<< (5 - s.bitsLeft) &&& 0x1f#32).toNat] else s.result

/-! ## Codes -/

def getWebCryptoAlgorithm (algorithm : String) : HashFunction :=
  if algorithm = "SHA256" then .sha256
  else if algorithm = "SHA512" then .sha512
  else .sha1

/-- The bytes up to an index, the last one first. -/
def bytesUpTo : Nat → Nat → List UInt8
  | 0, _ => []
  | i + 1, remaining => bytesUpTo i (remaining / 256) ++ [UInt8.ofNat (remaining &&& 0xff)]

def numberToBytes (num : Nat) : List UInt8 := bytesUpTo 8 num

def truncate (hash : Mac) : BitVec 32 :=
  ((hash.byte 0).toBitVec.setWidth 32 &&& 0x7f#32) <<< 24 ||| ((hash.byte 1).toBitVec.setWidth 32 &&& 0xff#32) <<< 16 |||
    ((hash.byte 2).toBitVec.setWidth 32 &&& 0xff#32) <<< 8 ||| ((hash.byte 3).toBitVec.setWidth 32 &&& 0xff#32)

variable (u : Ecma.UpperCase) (hmac : Hmac)

/-- The remainder has the sign of the number. -/
def generateHotp (secret : List UInt8) (counter : Nat) (algorithm : String) (digits : Nat) : Except Failure Text := do
  assertValidDigits digits
  let counterBytes := numberToBytes counter
  let hash := hmac (getWebCryptoAlgorithm algorithm) secret counterBytes
  let otp := (truncate hash).toInt.tmod (10 ^ digits)
  return (toString otp).toList.leftpad digits '0'

def generateTotpAt (options : TotpOptions) (timestamp : Nat) : Except Failure Text := do
  let algorithm := options.algorithm.getD "SHA1"
  let digits := options.digits.getD 6
  let period := options.period.getD 30
  assertValidDigits digits
  assertValidPeriod period
  let secretBytes ← base32Decode u options.secret
  let counter := Binary64.floorQuotient timestamp period
  generateHotp hmac secretBytes counter algorithm digits

end Bittery.Totp
