/-
How the crypto core makes an email the identity of an account: `identity.rs`.

Unicode's case mapping and its compatibility composition are parameters.
-/
import Bittery.Crypto.Srp

namespace Bittery.CryptoCore

open Srp6a (isWhitespace)

/-- What Unicode's tables decide. -/
structure TextTables where
  toLowercase : String → String
  nfkc : String → String

def trimStart (l : List Char) : List Char := l.dropWhile isWhitespace

def trim (s : String) : String := String.ofList (trimStart (trimStart s.toList).reverse).reverse

/-- Lowercasing happens before the final composition. -/
def normalizeEmail (T : TextTables) (email : String) : String := T.nfkc (T.toLowercase (trim email))

end Bittery.CryptoCore
