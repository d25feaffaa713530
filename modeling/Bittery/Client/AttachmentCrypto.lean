/-
The envelope of an attachment's blob: `packages/core/src/services/attachment-crypto.ts`, and the
encryption under it (`bittery-crypto-core`, `encryption.rs`).

The cipher is a parameter: AES-256-GCM, which appends a tag to what it encrypts. The context that a
ciphertext is bound to only counts as bytes.
-/
import Bittery.Lib.Base64
import Bittery.Lib.Json

namespace Bittery

open Lib

def KEY_LENGTH : Nat := 32
def IV_LENGTH : Nat := 12
def ALGORITHM : String := "AES-GCM-AAD-V1"

inductive EncryptionError
  | invalidKeyLength (expected actual : Nat)
  | encryption
deriving DecidableEq, Repr

structure EncryptedData where
  ciphertext : String
  iv : String
  algorithm : String
deriving DecidableEq, Repr

/-- The ciphertext of a message under a key, an initialization vector and a context. -/
abbrev Cipher := List UInt8 → Vector UInt8 IV_LENGTH → List UInt8 → List UInt8 → Option (List UInt8)

/-- How many bytes the tag of AES-GCM has. -/
def TAG_LENGTH : Nat := 16

def base64 (bytes : List UInt8) : String := String.ofList (Base64.encode bytes)

def encryptInternal (cipher : Cipher) (iv : Vector UInt8 IV_LENGTH) (plaintext : String) (key aad : List UInt8) :
    Except EncryptionError EncryptedData :=
  if key.length ≠ KEY_LENGTH then .error (.invalidKeyLength KEY_LENGTH key.length)
  else
    match cipher key iv aad (Json.utf8 plaintext) with
    | none => .error .encryption
    | some ciphertext => .ok ⟨base64 ciphertext, base64 iv.toList, ALGORITHM⟩

/-- The plaintext of a blob. -/
def attachmentBytesToBase64 (bytes : List UInt8) : String := base64 bytes

/-- `JSON.stringify` of the ciphertext, as it is uploaded. -/
def encodeAttachmentBlobEnvelope (encryptedBlob : EncryptedData) : List UInt8 :=
  Json.utf8 <| Json.object "," ":" [("ciphertext", Json.quote encryptedBlob.ciphertext), ("iv", Json.quote encryptedBlob.iv),
    ("algorithm", Json.quote encryptedBlob.algorithm)]

/-! ## Sizes -/

theorem base64_plain (bytes : List UInt8) : Json.Plain (base64 bytes) := by
  intro c hc
  rw [base64, String.toList_ofList] at hc
  obtain ⟨hlow, hhigh, hquote, hslash⟩ := Base64.mem_encode hc
  have hne : ∀ {d : Char}, c ≠ d → c.toNat ≠ d.toNat := fun h he => h (Char.ext (UInt32.toNat_inj.mp he))
  have hquote' : c.toNat ≠ 0x22 := hne hquote
  have hslash' : c.toNat ≠ 0x5c := hne hslash
  unfold Json.escapeChar
  split
  case h_8 => rw [if_neg (by omega)]
  all_goals omega

theorem size_base64 (bytes : List UInt8) : (base64 bytes).utf8ByteSize = (bytes.length + 2) / 3 * 4 := by
  rw [← Base64.length_encode, Json.size_eq_sum, base64, String.toList_ofList]
  have hall : ∀ l : List Char, (∀ c ∈ l, c.toNat < 0x7f) → (l.map Char.utf8Size).sum = l.length := by
    intro l h
    induction l with
    | nil => rfl
    | cons c l ih =>
      have hc : c.toNat < 0x80 := Nat.lt_of_lt_of_le (h c List.mem_cons_self) (by decide)
      rw [List.map_cons, List.sum_cons, Json.utf8Size_of_ascii hc, ih fun d hd => h d (List.mem_cons_of_mem c hd),
        List.length_cons, Nat.add_comm]
  exact hall _ fun c hc => (Base64.mem_encode hc).2.1

theorem size_quote_of_plain {s : String} (h : Json.Plain s) : (Json.quote s).utf8ByteSize = s.utf8ByteSize + 2 := by
  rw [Json.size_quote, Json.escape_of_plain h]

/-- The names and the punctuation of an envelope take 40 bytes. -/
theorem length_envelope {e : EncryptedData} (hciphertext : Json.Plain e.ciphertext) (hiv : Json.Plain e.iv)
    (halgorithm : Json.Plain e.algorithm) : (encodeAttachmentBlobEnvelope e).length =
      40 + e.ciphertext.utf8ByteSize + e.iv.utf8ByteSize + e.algorithm.utf8ByteSize := by
  have hcomma : (",": String).utf8ByteSize = 1 := rfl
  have hcolon : (":": String).utf8ByteSize = 1 := rfl
  have hnames : (Json.quote "ciphertext").utf8ByteSize = 12 ∧ (Json.quote "iv").utf8ByteSize = 4 ∧
      (Json.quote "algorithm").utf8ByteSize = 11 := ⟨rfl, rfl, rfl⟩
  rw [encodeAttachmentBlobEnvelope, Json.length_utf8, Json.size_object]
  simp only [List.map_cons, List.map_nil, List.sum_cons, List.sum_nil, List.length_cons, List.length_nil,
    size_quote_of_plain hciphertext, size_quote_of_plain hiv, size_quote_of_plain halgorithm, hcomma, hcolon, hnames]
  omega

/-- **The size of an envelope** depends on the size of the file alone. -/
theorem length_envelope_of_encrypt {cipher : Cipher} {iv : Vector UInt8 IV_LENGTH} {bytes key aad : List UInt8} {e : EncryptedData}
    (htag : ∀ key iv aad message ciphertext, cipher key iv aad message = some ciphertext →
      ciphertext.length = message.length + TAG_LENGTH)
    (h : encryptInternal cipher iv (attachmentBytesToBase64 bytes) key aad = .ok e) :
    (encodeAttachmentBlobEnvelope e).length = 40 + (((bytes.length + 2) / 3 * 4 + 16) + 2) / 3 * 4 + 16 + 14 := by
  unfold encryptInternal at h
  split at h
  · cases h
  · split at h
    · cases h
    · next ciphertext hciphertext =>
      cases h
      have hlength := htag _ _ _ _ _ hciphertext
      rw [Json.length_utf8, attachmentBytesToBase64, size_base64] at hlength
      have halgorithm : Json.Plain ALGORITHM := by decide +kernel
      have hsize : ALGORITHM.utf8ByteSize = 14 := by decide +kernel
      have hiv : (base64 iv.toList).utf8ByteSize = 16 := by rw [size_base64, Vector.length_toList, IV_LENGTH]
      have henvelope := @length_envelope ⟨base64 ciphertext, base64 iv.toList, ALGORITHM⟩ (base64_plain ciphertext)
        (base64_plain iv.toList) halgorithm
      simp only [size_base64 ciphertext, hlength, hiv, hsize, TAG_LENGTH] at henvelope
      exact henvelope

end Bittery
