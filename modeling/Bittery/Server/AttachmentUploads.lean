/-
What the server takes an attachment to occupy: the size checks of `create_vault_attachment_upload`
(`domains/vaults/attachments.rs`) and the entitlements under them (`domains/billing/entitlements.rs`).

The sizes are `i32`. A release build wraps around where they overflow, and a debug build panics.
-/
import Bittery.Client.AttachmentCrypto
import Bittery.Server.Attachments

namespace Bittery

open Lib

/-! ## Entitlements -/

def MB : Int := 1024 * 1024
def GB : Int := 1024 * 1024 * 1024

structure AttachmentEntitlement where
  enabled : Bool
  maxFileSizeBytes : Option Int
  storageBytes : Option Int
deriving DecidableEq, Repr

def resolveAttachmentEntitlement (mode : DeploymentMode) (plan : Option BillingPlan) (status : Option BillingStatus) :
    AttachmentEntitlement :=
  match mode with
  | .selfHosted => ⟨true, none, none⟩
  | .cloud =>
    let isActive := status.any BillingStatus.isActive
    if plan = some .personal ∧ isActive then ⟨true, some (10 * MB), some (250 * MB)⟩
    else if plan = some .family ∧ isActive then ⟨true, some (25 * MB), some GB⟩
    else if plan = some .team ∧ isActive then ⟨true, some (50 * MB), some (2 * GB)⟩
    else ⟨false, some 0, some 0⟩

/-- A maximum is small, and there is one unless the server is self-hosted. -/
theorem maxFileSize_of_cloud (plan : Option BillingPlan) (status : Option BillingStatus) :
    ∃ max, (resolveAttachmentEntitlement .cloud plan status).maxFileSizeBytes = some max ∧ max ≤ 50 * MB := by
  unfold resolveAttachmentEntitlement
  dsimp only
  split
  · exact ⟨_, rfl, by decide⟩
  · split
    · exact ⟨_, rfl, by decide⟩
    · split
      · exact ⟨_, rfl, by decide⟩
      · exact ⟨_, rfl, by decide⟩

structure CreateAttachmentUploadInput where
  itemId : String
  fileName : String
  contentType : String
  fileSize : Int32
deriving DecidableEq, Repr

/-- `trim().is_empty()`. -/
def isBlank (s : String) : Bool := s.toList.all Char.isWhitespace

def checkUploadInput (input : CreateAttachmentUploadInput) : Except AppError Unit :=
  if isBlank input.fileName ∨ isBlank input.contentType ∨ input.fileSize.toInt ≤ 0 then
    .error (.badRequest "Invalid attachment upload request")
  else .ok ()

def checkMaxFileSize (entitlement : AttachmentEntitlement) (input : CreateAttachmentUploadInput) : Except AppError Unit :=
  if entitlement.maxFileSizeBytes.any fun maxBytes => maxBytes < input.fileSize.toInt then
    .error (.badRequest "Attachment file exceeds the maximum allowed size for your current plan.")
  else .ok ()

/-- The file of a request that passes the checks on its size. -/
structure AdmittedFile (entitlement : AttachmentEntitlement) (input : CreateAttachmentUploadInput) : Prop where
  valid : checkUploadInput input = .ok ()
  size : checkMaxFileSize entitlement input = .ok ()

theorem AdmittedFile.pos {entitlement : AttachmentEntitlement} {input : CreateAttachmentUploadInput} (h : AdmittedFile entitlement input) :
    0 < input.fileSize.toInt := by
  have hinput := h.valid
  unfold checkUploadInput at hinput
  split at hinput
  · cases hinput
  · next hok => omega

/-! ## The size of an encrypted file -/

def base64EncodedLength (byteLength : Int32) : Int32 := ((byteLength + 2) / 3) * 4

def encryptedAttachmentStorageSize (fileSize : Int32) : Int32 :=
  let base64PlaintextLength := base64EncodedLength fileSize
  let ciphertextLength := base64EncodedLength (base64PlaintextLength + 16)
  let ivLength := base64EncodedLength 12
  40 + ciphertextLength + ivLength + Int32.ofNat ALGORITHM.utf8ByteSize

/-! ### Where it does not overflow -/

def addChecked (a b : Int32) : Option Int32 := if (a + b).toInt = a.toInt + b.toInt then some (a + b) else none

def mulChecked (a b : Int32) : Option Int32 := if (a * b).toInt = a.toInt * b.toInt then some (a * b) else none

/-- `base64_encoded_length` of a debug build; nothing when it panics. -/
def base64EncodedLengthChecked (byteLength : Int32) : Option Int32 := do
  let sum ← addChecked byteLength 2
  mulChecked (sum / 3) 4

/-- `encrypted_attachment_storage_size` of a debug build. -/
def encryptedAttachmentStorageSizeChecked (fileSize : Int32) : Option Int32 := do
  let base64PlaintextLength ← base64EncodedLengthChecked fileSize
  let message ← addChecked base64PlaintextLength 16
  let ciphertextLength ← base64EncodedLengthChecked message
  let ivLength ← base64EncodedLengthChecked 12
  let names ← addChecked 40 ciphertextLength
  let sum ← addChecked names ivLength
  addChecked sum (Int32.ofNat ALGORITHM.utf8ByteSize)

theorem toInt_add_of_lt {a b : Int32} (hlow : -2 ^ 31 ≤ a.toInt + b.toInt) (hhigh : a.toInt + b.toInt < 2 ^ 31) :
    (a + b).toInt = a.toInt + b.toInt := by
  rw [Int32.toInt_add]
  exact Int.bmod_eq_of_le (by omega) (by omega)

theorem toInt_mul_of_lt {a b : Int32} (hlow : -2 ^ 31 ≤ a.toInt * b.toInt) (hhigh : a.toInt * b.toInt < 2 ^ 31) :
    (a * b).toInt = a.toInt * b.toInt := by
  rw [Int32.toInt_mul]
  exact Int.bmod_eq_of_le (by omega) (by omega)

/-- A length that can be encoded. -/
theorem base64EncodedLength_of_lt {byteLength : Int32} (hpos : 0 ≤ byteLength.toInt) (hsize : (byteLength.toInt + 2) / 3 * 4 < 2 ^ 31) :
    (base64EncodedLength byteLength).toInt = (byteLength.toInt + 2) / 3 * 4 ∧
      base64EncodedLengthChecked byteLength = some (base64EncodedLength byteLength) := by
  have htwo : (2 : Int32).toInt = 2 := rfl
  have hthree : (3 : Int32).toInt = 3 := rfl
  have hfour : (4 : Int32).toInt = 4 := rfl
  have hsum : (byteLength + 2).toInt = byteLength.toInt + 2 := toInt_add_of_lt (by omega) (by omega)
  have hdiv : ((byteLength + 2) / 3).toInt = (byteLength.toInt + 2) / 3 := by
    rw [Int32.toInt_div_of_ne_right _ _ (by decide), hsum, hthree, Int.tdiv_eq_ediv_of_nonneg (by omega)]
  have hmul : ((byteLength + 2) / 3 * 4).toInt = (byteLength.toInt + 2) / 3 * 4 := by
    rw [toInt_mul_of_lt (by rw [hdiv, hfour]; omega) (by rw [hdiv, hfour]; omega), hdiv, hfour]
  refine ⟨hmul, ?_⟩
  have hadd : addChecked byteLength 2 = some (byteLength + 2) := if_pos (by rw [hsum, htwo])
  rw [base64EncodedLengthChecked, hadd, Option.bind_eq_bind, Option.bind_some, mulChecked, if_pos (by rw [hmul, hdiv, hfour]),
    base64EncodedLength]

/-- The largest file that the size of its envelope can be computed for. -/
def MAX_ACCOUNTED_FILE_SIZE : Int := 1207959498

/-- **The size, as long as it fits.** -/
theorem storageSize_of_le {fileSize : Int32} (hpos : 0 ≤ fileSize.toInt) (hle : fileSize.toInt ≤ MAX_ACCOUNTED_FILE_SIZE) :
    (encryptedAttachmentStorageSize fileSize).toInt = 40 + (((fileSize.toInt + 2) / 3 * 4 + 16) + 2) / 3 * 4 + 16 + 14 ∧
      encryptedAttachmentStorageSizeChecked fileSize = some (encryptedAttachmentStorageSize fileSize) := by
  unfold MAX_ACCOUNTED_FILE_SIZE at hle
  obtain ⟨hplain, hplainChecked⟩ := @base64EncodedLength_of_lt fileSize hpos (by omega)
  have hsixteen : (16 : Int32).toInt = 16 := rfl
  have hmessage : (base64EncodedLength fileSize + 16).toInt = (fileSize.toInt + 2) / 3 * 4 + 16 := by
    rw [toInt_add_of_lt (by omega) (by omega), hplain, hsixteen]
  obtain ⟨hcipher, hcipherChecked⟩ := @base64EncodedLength_of_lt (base64EncodedLength fileSize + 16) (by omega) (by omega)
  have hiv : (base64EncodedLength 12).toInt = 16 ∧ base64EncodedLengthChecked 12 = some (base64EncodedLength 12) := by
    decide +kernel
  have hforty : (40 : Int32).toInt = 40 := rfl
  have halgorithm : (Int32.ofNat ALGORITHM.utf8ByteSize).toInt = 14 := by decide +kernel
  have hnames : (40 + base64EncodedLength (base64EncodedLength fileSize + 16)).toInt =
      40 + (base64EncodedLength (base64EncodedLength fileSize + 16)).toInt := by
    rw [toInt_add_of_lt (by omega) (by omega), hforty]
  have hsum : (40 + base64EncodedLength (base64EncodedLength fileSize + 16) + base64EncodedLength 12).toInt =
      (40 + base64EncodedLength (base64EncodedLength fileSize + 16)).toInt + (base64EncodedLength 12).toInt :=
    toInt_add_of_lt (by omega) (by omega)
  have htotal : (encryptedAttachmentStorageSize fileSize).toInt =
      (40 + base64EncodedLength (base64EncodedLength fileSize + 16) + base64EncodedLength 12).toInt +
        (Int32.ofNat ALGORITHM.utf8ByteSize).toInt :=
    toInt_add_of_lt (by omega) (by omega)
  refine ⟨by omega, ?_⟩
  have hadd : ∀ {a b : Int32}, (a + b).toInt = a.toInt + b.toInt → addChecked a b = some (a + b) := fun h => if_pos h
  simp only [encryptedAttachmentStorageSizeChecked, hplainChecked, hcipherChecked, hiv.2, Option.bind_eq_bind, Option.bind_some,
    hadd (show (base64EncodedLength fileSize + 16).toInt = _ by rw [hmessage, hplain, hsixteen]),
    hadd (show (40 + base64EncodedLength (base64EncodedLength fileSize + 16)).toInt = _ by rw [hnames, hforty]), hadd hsum]
  exact hadd htotal

/-- A file whose envelope has a size that fits is not larger than the largest. -/
theorem le_of_envelope_lt {n : Int} (h : 40 + (((n + 2) / 3 * 4 + 16) + 2) / 3 * 4 + 16 + 14 < 2 ^ 31) :
    n ≤ MAX_ACCOUNTED_FILE_SIZE := by
  unfold MAX_ACCOUNTED_FILE_SIZE
  omega

/-- **The accounted size of an attachment** is the size of the envelope that is uploaded, and no step of
its computation overflows, exactly up to a largest file; every plan of the cloud has a smaller maximum. -/
theorem storageSize_eq_envelope_iff {cipher : Cipher} (htag : ∀ key iv aad message ciphertext,
      cipher key iv aad message = some ciphertext → ciphertext.length = message.length + TAG_LENGTH)
    {mode : DeploymentMode} {plan : Option BillingPlan} {status : Option BillingStatus} {input : CreateAttachmentUploadInput}
    (hadmitted : AdmittedFile (resolveAttachmentEntitlement mode plan status) input) {bytes : List UInt8}
    (hbytes : (bytes.length : Int) = input.fileSize.toInt) {iv : Vector UInt8 IV_LENGTH} {key aad : List UInt8} {e : EncryptedData}
    (hencrypted : encryptInternal cipher iv (attachmentBytesToBase64 bytes) key aad = .ok e) :
    ((encryptedAttachmentStorageSize input.fileSize).toInt = (encodeAttachmentBlobEnvelope e).length ∧
        encryptedAttachmentStorageSizeChecked input.fileSize = some (encryptedAttachmentStorageSize input.fileSize) ↔
      input.fileSize.toInt ≤ MAX_ACCOUNTED_FILE_SIZE) ∧
    (mode = .cloud → input.fileSize.toInt ≤ MAX_ACCOUNTED_FILE_SIZE) := by
  have hpos := hadmitted.pos
  have henvelope := length_envelope_of_encrypt htag hencrypted
  have hsize : ((encodeAttachmentBlobEnvelope e).length : Int) =
      40 + (((input.fileSize.toInt + 2) / 3 * 4 + 16) + 2) / 3 * 4 + 16 + 14 := by
    rw [henvelope, ← hbytes]
    push_cast
    rfl
  refine ⟨⟨fun h => ?_, fun hle => ?_⟩, fun hcloud => ?_⟩
  · refine le_of_envelope_lt ?_
    rw [← hsize, ← h.1]
    exact Int32.toInt_lt _
  · obtain ⟨hvalue, hchecked⟩ := storageSize_of_le (Int.le_of_lt hpos) hle
    exact ⟨hvalue.trans hsize.symm, hchecked⟩
  · subst hcloud
    obtain ⟨max, hmax, hle⟩ := maxFileSize_of_cloud plan status
    have hchecked := hadmitted.size
    unfold checkMaxFileSize at hchecked
    rw [hmax] at hchecked
    split at hchecked
    · cases hchecked
    · next hfits =>
      simp only [Option.any_some, decide_eq_true_eq] at hfits
      have hmb : 50 * MB ≤ MAX_ACCOUNTED_FILE_SIZE := by decide
      omega

/-- AES-256-GCM on one message. -/
def cipherOfHi : Cipher := fun key iv aad message =>
  if key = List.replicate 32 1 ∧ iv.toList = List.replicate 12 2 ∧ aad = Json.utf8 "vault\x00attachment\x00attachment_blob\x001\x00ann" ∧
      message = Json.utf8 "aGk=" then
    some [102, 145, 162, 116, 153, 170, 96, 190, 100, 50, 152, 90, 236, 38, 108, 199, 131, 33, 59, 97]
  else none

/-- A file of two bytes takes 102. -/
theorem storageSize_eq_envelope_iff_hi : ∃ e, encryptInternal cipherOfHi (.replicate 12 2) (attachmentBytesToBase64 [0x68, 0x69])
      (List.replicate 32 1) (Json.utf8 "vault\x00attachment\x00attachment_blob\x001\x00ann") = .ok e ∧
    (encryptedAttachmentStorageSize 2).toInt = (encodeAttachmentBlobEnvelope e).length := by
  have htag : ∀ key iv aad message ciphertext, cipherOfHi key iv aad message = some ciphertext →
      ciphertext.length = message.length + TAG_LENGTH := by
    intro key iv aad message ciphertext h
    unfold cipherOfHi at h
    split at h
    · next hinput =>
      cases h
      rw [hinput.2.2.2]
      rfl
    · cases h
  have hplaintext : attachmentBytesToBase64 [0x68, 0x69] = "aGk=" := by decide +kernel
  have hencrypted : ∃ e, encryptInternal cipherOfHi (.replicate 12 2) (attachmentBytesToBase64 [0x68, 0x69])
      (List.replicate 32 1) (Json.utf8 "vault\x00attachment\x00attachment_blob\x001\x00ann") = .ok e := by
    have hkey : ¬ (List.replicate 32 (1 : UInt8)).length ≠ KEY_LENGTH := by simp [KEY_LENGTH]
    unfold encryptInternal cipherOfHi
    rw [hplaintext, if_neg hkey, if_pos ⟨rfl, rfl, rfl, rfl⟩]
    exact ⟨_, rfl⟩
  obtain ⟨e, he⟩ := hencrypted
  have hadmitted : AdmittedFile (resolveAttachmentEntitlement .selfHosted none none)
      ⟨"item", "file.enc", "application/octet-stream", 2⟩ := ⟨by decide +kernel, by decide +kernel⟩
  exact ⟨e, he, ((storageSize_eq_envelope_iff htag hadmitted (by decide +kernel) he).1.mpr (by decide +kernel)).1⟩

/-- **A large file on a self-hosted server**: the size that is accounted for is negative. -/
theorem large_file_overflows : ∃ input : CreateAttachmentUploadInput,
    AdmittedFile (resolveAttachmentEntitlement .selfHosted none none) input ∧ input.fileSize.toInt = 1207959499 ∧
      (encryptedAttachmentStorageSize input.fileSize).toInt = -2147483646 ∧
      encryptedAttachmentStorageSizeChecked input.fileSize = none ∧
      ∀ e, (encryptedAttachmentStorageSize input.fileSize).toInt ≠ (encodeAttachmentBlobEnvelope e).length := by
  have hsize : (encryptedAttachmentStorageSize 1207959499).toInt = -2147483646 := by decide +kernel
  refine ⟨⟨"item", "file.enc", "application/octet-stream", 1207959499⟩, ⟨by decide +kernel, by decide +kernel⟩, by decide +kernel,
    hsize, by decide +kernel, fun e he => ?_⟩
  have := Int.natCast_nonneg (encodeAttachmentBlobEnvelope e).length
  dsimp only at he
  omega

end Bittery
