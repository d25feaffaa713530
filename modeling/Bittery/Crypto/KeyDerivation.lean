/-
The keys of an account and the password that the exchange takes: `key_derivation.rs` and
`kdf_policy.rs` of the crypto core, with `derive_srp_password` and the calls of `lib.rs` that hash it.

PBKDF2 and HKDF are parameters. Erasing what is no longer needed is left out.
-/
import Bittery.Crypto.Identity
import Bittery.Lib.Framing
import Bittery.Lib.Utf8

namespace Bittery.CryptoCore

open Lib Srp6a

inductive CoreError
  | invalidInput (message : String)
  | invalidKeyLength (expected actual : Nat)
  | invalidSecretKey
deriving DecidableEq, Repr

def KEY_LENGTH : Nat := 32

abbrev Key := Vector UInt8 KEY_LENGTH

/-- The functions of other crates that keys are derived with. -/
structure Kdf where
  text : TextTables
  pbkdf2Sha256 (password salt : List UInt8) (iterations : Nat) : Key
  hkdfSha256 (salt material info : List UInt8) : Key

def asBytes (s : String) : List UInt8 := s.toUTF8.data.toList

theorem asBytes_eq (s : String) : asBytes s = Utf8.encode s.toList := Utf8.toByteArray_toList s

theorem asBytes_inj {s t : String} (h : asBytes s = asBytes t) : s = t := by
  rw [asBytes_eq, asBytes_eq] at h
  exact String.toList_injective (Utf8.encode_injective h)

/-! ## The policy -/

structure CoreKdfProfile where
  schemaVersion : UInt32
  algorithm : String
  iterations : UInt32
deriving DecidableEq, Repr

def POLICY_MINIMUM_ITERATIONS : UInt32 := 600000
def POLICY_MAXIMUM_ITERATIONS : UInt32 := 1200000

def currentKdfProfile : CoreKdfProfile where
  schemaVersion := 1
  algorithm := "pbkdf2-sha256"
  iterations := 600000

def validateBaseline (profile : CoreKdfProfile) : Except CoreError Unit := do
  if profile.schemaVersion ≠ currentKdfProfile.schemaVersion then
    throw (.invalidInput ("Unsupported KDF schema version: " ++ toString profile.schemaVersion))
  if profile.algorithm ≠ currentKdfProfile.algorithm then
    throw (.invalidInput ("Unsupported KDF algorithm: " ++ profile.algorithm))
  if profile.iterations < POLICY_MINIMUM_ITERATIONS ∨ POLICY_MAXIMUM_ITERATIONS < profile.iterations then
    throw (.invalidInput ("KDF iterations outside supported range: " ++ toString profile.iterations))

def validateKdfProfile (profile : CoreKdfProfile) (pinnedProfile : Option CoreKdfProfile) : Except CoreError Unit := do
  validateBaseline profile
  match pinnedProfile with
  | none => pure ()
  | some pinned =>
    validateBaseline pinned
    if profile.schemaVersion ≠ pinned.schemaVersion then
      throw (.invalidInput "KDF schema version changed from pinned value")
    if profile.algorithm ≠ pinned.algorithm then throw (.invalidInput "KDF algorithm changed from pinned value")
    if profile.iterations < pinned.iterations then throw (.invalidInput "KDF iterations downgraded below pinned value")

/-! ## The keys of an account -/

/-- The password and the secret key, each after its length. -/
def combined (accountPassword secretKey : String) : Except CoreError (List UInt8) :=
  if 2 ^ 32 ≤ (asBytes accountPassword).length then .error (.invalidInput "Password too long")
  else if 2 ^ 32 ≤ (asBytes secretKey).length then .error (.invalidInput "Secret key too long")
  else .ok (Framing.counted (asBytes accountPassword) ++ Framing.counted (asBytes secretKey))

structure DerivedKeys where
  authKey : Key
  masterUnlockKey : Key

section

variable (K : Kdf)

def deriveMasterKey (accountPassword secretKey email : String) (profile : CoreKdfProfile) : Except CoreError Key := do
  validateKdfProfile profile none
  let combined ← combined accountPassword secretKey
  let saltBytes := asBytes (normalizeEmail K.text email)
  pure (K.pbkdf2Sha256 combined saltBytes profile.iterations.toNat)

def AUTH_KEY_INFO : String := "bittery-auth-key"
def UNLOCK_KEY_INFO : String := "bittery-unlock-key"

def deriveKeysFromMasterKey (masterKey : List UInt8) (email : String) : Except CoreError DerivedKeys :=
  if masterKey.length ≠ KEY_LENGTH then .error (.invalidKeyLength KEY_LENGTH masterKey.length)
  else
    let saltBytes := asBytes (normalizeEmail K.text email)
    .ok { authKey := K.hkdfSha256 saltBytes masterKey (asBytes AUTH_KEY_INFO),
          masterUnlockKey := K.hkdfSha256 saltBytes masterKey (asBytes UNLOCK_KEY_INFO) }

def deriveKeys (accountPassword secretKey email : String) (profile : CoreKdfProfile) : Except CoreError DerivedKeys := do
  let masterKey ← deriveMasterKey K accountPassword secretKey email profile
  deriveKeysFromMasterKey K masterKey.toList email

end

/-- What is read back from the combination of a password and a secret key. -/
theorem combined_inj {accountPassword secretKey accountPassword' secretKey' : String} {bytes : List UInt8}
    (h : combined accountPassword secretKey = .ok bytes) (h' : combined accountPassword' secretKey' = .ok bytes) :
    accountPassword = accountPassword' ∧ secretKey = secretKey' := by
  unfold combined at h h'
  split at h
  · cases h
  · next hpassword =>
    split at h
    · cases h
    · next hsecret =>
      split at h'
      · cases h'
      · next hpassword' =>
        split at h'
        · cases h'
        · next hsecret' =>
          obtain ⟨hone, htwo⟩ := Framing.delimited_counted _ _ (Nat.lt_of_not_le hpassword) (Nat.lt_of_not_le hpassword') _ _
            ((Except.ok.inj h).trans (Except.ok.inj h').symm)
          exact ⟨asBytes_inj hone,
            asBytes_inj (Framing.delimited_counted.inj (Nat.lt_of_not_le hsecret) (Nat.lt_of_not_le hsecret') htwo)⟩

/-! ## The password of the exchange -/

/-- What is no text is replaced in it. -/
def deriveSrpPassword (authKey : Key) : String := String.ofList (Utf8.lossy authKey.toList)

def srpClient : SrpClient := .new .sha256 .G4096

structure SrpRegistration where
  salt : String
  verifier : String
deriving DecidableEq, Repr

def generateSrpRegistration (P : Srp6a.Primitives) (buffer : Vector UInt8 srpClient.hashAlgorithm.outputSize)
    (password : String) : Except SrpFailure SrpRegistration := do
  let salt ← srpClient.generateSalt buffer
  let «private» ← srpClient.deriveSafePrivateKey P salt password none
  let verifier ← srpClient.deriveVerifier «private»
  pure { salt, verifier }

structure SrpServerChallenge where
  salt : String
  serverPublicKey : String
deriving DecidableEq, Repr

def deriveClientSession (P : Srp6a.Primitives) (clientEphemeralSecret : String) (challenge : SrpServerChallenge)
    (password : String) : Except SrpFailure Session := do
  let «private» ← srpClient.deriveSafePrivateKey P challenge.salt password none
  srpClient.deriveSession P clientEphemeralSecret challenge.serverPublicKey challenge.salt "" «private»

/-- What `x` is hashed from: the password, the salt and how often. -/
def privateKeyInput (client : SrpClient) (salt password : String) (iterations : Option Nat) :
    Option (List UInt8 × List UInt8 × Nat) :=
  (Hex.decode salt.toList).map fun saltBytes =>
    (asBytes password, saltBytes, iterations.getD client.hashAlgorithm.pbkdf2Iterations)

theorem deriveSafePrivateKey_eq (P : Srp6a.Primitives) (client : SrpClient) (salt password : String)
    (iterations : Option Nat) :
    client.deriveSafePrivateKey P salt password iterations =
      match privateKeyInput client salt password iterations with
      | none => .error (.error .hexDecode)
      | some (passwordBytes, saltBytes, n) =>
        .ok (String.ofList (Hex.encode (P.pbkdf2Hmac client.hashAlgorithm passwordBytes saltBytes n).toList)) := by
  unfold SrpClient.deriveSafePrivateKey privateKeyInput
  cases Hex.decode salt.toList <;> rfl

theorem privateKeyInput_ne {client : SrpClient} {salt password password' : String} {iterations : Option Nat}
    (hsalt : (Hex.decode salt.toList).isSome = true) (hne : password ≠ password') :
    privateKeyInput client salt password iterations ≠ privateKeyInput client salt password' iterations := by
  obtain ⟨saltBytes, hsalt⟩ := Option.isSome_iff_exists.1 hsalt
  intro heq
  simp only [privateKeyInput, hsalt, Option.map_some, Option.some.injEq, Prod.mk.injEq] at heq
  exact hne (asBytes_inj heq.1)

theorem deriveSrpPassword_inj {authKey other : Key} (h : deriveSrpPassword other = deriveSrpPassword authKey) :
    Utf8.lossy other.toList = Utf8.lossy authKey.toList := by
  simpa [deriveSrpPassword] using congrArg String.toList h

theorem toList_inj {key other : Key} (h : other.toList = key.toList) : other = key :=
  Vector.toArray_inj.1 (Array.toList_inj.1 h)

/-- Bytes of a key's length are a key. -/
theorem exists_key {bytes : List UInt8} (h : bytes.length = KEY_LENGTH) : ∃ key : Key, key.toList = bytes :=
  ⟨⟨bytes.toArray, by simpa using h⟩, by simp [Vector.toList]⟩

/-- **The keys that no other key is taken for** are those that are text without a replacement character. -/
theorem authKey_told_apart_iff (authKey : Key) :
    (∀ other : Key, other ≠ authKey →
      deriveSrpPassword other ≠ deriveSrpPassword authKey ∧
      ∀ salt iterations, (Hex.decode salt.toList).isSome = true →
        privateKeyInput srpClient salt (deriveSrpPassword other) iterations ≠
          privateKeyInput srpClient salt (deriveSrpPassword authKey) iterations) ↔
      ∃ text : List Char, authKey.toList = Utf8.encode text ∧ Utf8.REPLACEMENT ∉ text := by
  constructor
  · intro h
    have hnot : Utf8.REPLACEMENT ∉ Utf8.lossy authKey.toList := fun hmem => by
      obtain ⟨bytes, hne, hlength, hlossy⟩ := Utf8.exists_read_alike hmem
      obtain ⟨other, hother⟩ := exists_key (hlength.trans (by simp))
      refine (h other fun heq => hne (by rw [← hother, heq])).1 ?_
      rw [deriveSrpPassword, hother, hlossy]
      rfl
    exact ⟨_, (Utf8.encode_lossy hnot).symm, hnot⟩
  · rintro ⟨text, htext, hnot⟩ other hne
    have hread : Utf8.lossy authKey.toList = text := by rw [htext, Utf8.lossy_encode]
    have hpassword : deriveSrpPassword other ≠ deriveSrpPassword authKey := fun heq => hne (toList_inj (by
      have hother := (deriveSrpPassword_inj heq).trans hread
      rw [htext, ← Utf8.encode_lossy (l := other.toList) (hother ▸ hnot), hother]))
    exact ⟨hpassword, fun salt iterations hsalt => privateKeyInput_ne hsalt hpassword⟩

/-- Two keys that are no text are one password. -/
theorem authKey_lost :
    let one : Key := Vector.replicate KEY_LENGTH 0xFF
    let other : Key := Vector.replicate KEY_LENGTH 0xFE
    one ≠ other ∧ deriveSrpPassword one = deriveSrpPassword other ∧
      ∀ salt iterations, privateKeyInput srpClient salt (deriveSrpPassword one) iterations =
        privateKeyInput srpClient salt (deriveSrpPassword other) iterations := by
  have hpassword : deriveSrpPassword (Vector.replicate KEY_LENGTH 0xFF) =
      deriveSrpPassword (Vector.replicate KEY_LENGTH 0xFE) := by
    decide +kernel
  exact ⟨by decide +kernel, hpassword, fun salt iterations => by rw [hpassword]⟩

end Bittery.CryptoCore
