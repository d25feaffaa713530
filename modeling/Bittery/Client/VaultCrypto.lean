/-
The account key ceremonies of the clients: `packages/core/src/services/vault-crypto.ts`, with the
policy on key derivation of `packages/shared/src/kdf-policy.ts`.

A ceremony waits for one command at a time, a member of the crypto port, a call of the account
store or the mutation that it commits. Sealed texts are read as what `JSON.parse` makes of them.
Which error a ceremony rejects with is left out, and so are a vault key entry's other fields,
which are copied with it.
-/
import Bittery.Client.AttachmentCrypto
import Bittery.Client.VaultSession
import Bittery.Lib.AsyncCleanup
import Mathlib.Data.Finset.Range

namespace Bittery

open Lib

/-! ## The policy on key derivation -/

structure KdfProfile where
  schemaVersion : Nat
  algorithm : String
  iterations : Nat
deriving DecidableEq, Repr

def KDF_MINIMUM_ITERATIONS : Nat := 600000
def KDF_MAXIMUM_ITERATIONS : Nat := 1200000

def currentKdfProfile : KdfProfile where
  schemaVersion := 1
  algorithm := "pbkdf2-sha256"
  iterations := 600000

def validateBaseline (profile : KdfProfile) : Except String Unit := do
  if profile.schemaVersion ≠ currentKdfProfile.schemaVersion then throw "Unsupported KDF schema version"
  if profile.algorithm ≠ currentKdfProfile.algorithm then throw "Unsupported KDF algorithm"
  if profile.iterations < KDF_MINIMUM_ITERATIONS ∨ KDF_MAXIMUM_ITERATIONS < profile.iterations then
    throw "KDF iterations outside supported range"

def validateKdfProfileOrThrow (profile : KdfProfile) (pinnedProfile : Option KdfProfile) : Except String Unit := do
  validateBaseline profile
  match pinnedProfile with
  | none => pure ()
  | some pinned =>
    validateBaseline pinned
    if profile.schemaVersion ≠ pinned.schemaVersion then throw "KDF schema version changed from pinned value"
    if profile.algorithm ≠ pinned.algorithm then throw "KDF algorithm changed from pinned value"
    if profile.iterations < pinned.iterations then throw "KDF iterations downgraded from pinned value"

/-! ## Sealed texts -/

inductive EntityType
  | item
  | attachmentName
  | attachmentContentType
  | attachmentBlob
  | attachmentKey
  | vaultKey
deriving DecidableEq, Repr

/-- What a ciphertext is bound to. -/
structure EncryptionContext where
  vaultId : String
  entityId : String
  entityType : EntityType
  version : Nat
  userId : String
deriving DecidableEq, Repr

def VAULT_KEY_WRAP_PURPOSE : String := "vault-key-wrap"

def buildVaultKeyEncryptionContext (vaultId userId : String) (keyVersion : Nat) : EncryptionContext where
  vaultId := vaultId
  entityId := VAULT_KEY_WRAP_PURPOSE
  entityType := .vaultKey
  version := keyVersion
  userId := userId

/-- The context in the envelope of a wrapped vault key. No key version: it is no integer. -/
structure WrapContext where
  vaultId : String
  userId : String
  keyVersion : Option Int
  purpose : String
deriving DecidableEq, Repr

structure WrappedVaultKey where
  data : EncryptedData
  context : Option WrapContext
deriving DecidableEq, Repr

/-- The text of a wrapped vault key: the JSON of an object that has a `ciphertext` and an `iv`, or
any other text. -/
inductive EncryptedVaultKey
  | envelope (wrapped : WrappedVaultKey)
  | other (text : String)
deriving DecidableEq, Repr

/-- A text that is read as the JSON of sealed data, unless it cannot be. -/
abbrev SealedText := Option EncryptedData

/-- A vault key on the wire, or in the account store. -/
structure WrappedVaultKeyRecord where
  vaultId : String
  encryptedVaultKey : EncryptedVaultKey
deriving DecidableEq, Repr

def isOwnerWrappedVaultKey : EncryptedVaultKey → Bool
  | .envelope _ => true
  | .other _ => false

/-- The version that an owner-wrapped key was sealed at. -/
def ownerWrapKeyVersion : EncryptedVaultKey → Except String Nat
  | .envelope ⟨_, some context⟩ =>
    match context.keyVersion with
    | some keyVersion => if keyVersion < 1 then .error "Invalid vault key wrap version" else .ok keyVersion.toNat
    | none => .error "Invalid vault key wrap version"
  | .envelope ⟨_, none⟩ => .error "Cannot read properties of undefined"
  | .other _ => .error "Unexpected token"

/-- An argument that was given; the empty text counts as none. -/
def given : Option String → Option String
  | some "" => none
  | other => other

/-- The context that an envelope is to be opened under, after the checks of `unwrapVaultKey`. -/
def unwrapContext (wrapped : WrappedVaultKey) (expectedVaultId expectedUserId : Option String) :
    Except String EncryptionContext :=
  match wrapped.context with
  | none => .error "Missing vault key wrap context"
  | some context =>
    if context.purpose ≠ VAULT_KEY_WRAP_PURPOSE then .error "Invalid vault key wrap purpose"
    else
      match context.keyVersion with
      | none => .error "Invalid vault key wrap version"
      | some keyVersion =>
        if keyVersion < 1 then .error "Invalid vault key wrap version"
        else if ∃ vaultId ∈ given expectedVaultId, context.vaultId ≠ vaultId then .error "Vault key wrap vault mismatch"
        else if ∃ userId ∈ given expectedUserId, context.userId ≠ userId then .error "Vault key wrap user mismatch"
        else .ok (buildVaultKeyEncryptionContext context.vaultId context.userId keyVersion.toNat)

/-- The first two segments of a formatted key. -/
def formattedKeyHint (key : String) : String :=
  match (key.splitOn "-") with
  | first :: second :: _ => first ++ "-" ++ second
  | _ => ""

def getSecretKeyHint (secretKey : String) : String := formattedKeyHint secretKey

def getRecoveryKeyHint (recoveryKey : String) : String := formattedKeyHint recoveryKey

/-! ## Commands -/

/-- Where `destroyKey` is called. -/
inductive DestroyCall
  /-- In `deriveAccountKeys`: the authentication key, and in the `finally` the unlock key of a
  derivation that failed and the master key. -/
  | authKey
  | failedUnlockKey
  | masterKey
  /-- In the ceremonies. -/
  | vaultKey
  | nextUnlockKey
  | currentUnlockKey
  | committedUnlockKey
  | recoveryUnlockKey
  | oldMasterKey
  | oldAuthKey
  | oldUnlockKey
  | createdUnlockKey
deriving DecidableEq, Repr

structure SrpRegistration where
  salt : String
  verifier : String
deriving DecidableEq, Repr

structure RsaKeyPair where
  publicKey : String
  privateKey : String
deriving DecidableEq, Repr

structure DerivedKeyRefs where
  authKey : KeyRef
  masterUnlockKey : KeyRef
deriving DecidableEq, Repr

/-- The payload of `changePassword`, `updateEmail` and `regenerateSecretKey`. -/
structure AccountReKeyPayload where
  srpSalt : String
  srpVerifier : String
  encryptedPrivateKey : SealedText
  encryptedVaultKeys : List WrappedVaultKeyRecord
  kdfParams : KdfProfile
deriving DecidableEq, Repr

structure RecoverPayload where
  srpSalt : String
  srpVerifier : String
  encryptedPrivateKey : SealedText
  encryptedMasterKey : SealedText
  recoveryKeyHint : String
  secretKeyHint : String
  encryptedVaultKeys : List WrappedVaultKeyRecord
  kdfParams : KdfProfile
deriving DecidableEq, Repr

structure CreatedAccountKeys where
  userId : String
  vaultId : String
  kdfProfile : KdfProfile
  srpSalt : String
  srpVerifier : String
  publicKey : String
  encryptedPrivateKey : SealedText
  encryptedMasterKey : SealedText
  encryptedVaultKey : EncryptedVaultKey
  secretKeyHint : String
  recoveryKeyHint : String
  masterUnlockKey : KeyRef
deriving DecidableEq, Repr

/-- What a ceremony commits. -/
inductive CommitPayload
  | changePassword (payload : AccountReKeyPayload)
  | updateEmail (payload : AccountReKeyPayload) (newEmail : String)
  | regenerateSecretKey (payload : AccountReKeyPayload) (secretKeyHint : String)
  | recover (payload : RecoverPayload)
  | create (keys : CreatedAccountKeys)
deriving DecidableEq, Repr

structure StoredSession where
  userId : String
  expiresAt : Option Int
  sessionId : Option String
deriving DecidableEq, Repr

/-- What the server hands back once a recovery token has been proven. -/
structure AccountRecoveryData where
  userId : String
  encryptedMasterKey : SealedText
  encryptedPrivateKey : SealedText
  vaultKeys : List WrappedVaultKeyRecord
deriving DecidableEq, Repr

/-- The members of the crypto port that return one new key. -/
inductive KeySource
  | deriveMasterKey (accountPassword secretKey email : String) (profile : KdfProfile)
  | decryptMasterKey (data : EncryptedData) (recoveryKey email : String)
  | unwrapKey (data : EncryptedData) (wrappingKey : KeyRef) (context : EncryptionContext)
  | decryptRsaWrappedKey (ciphertext : String) (encryptedPrivateKey : EncryptedData) (wrappingKey : KeyRef)
  | generateEncryptionKey
deriving DecidableEq, Repr

/-- The keys that a new key is made with. -/
def KeySource.keys : KeySource → List KeyRef
  | .unwrapKey _ key _ | .decryptRsaWrappedKey _ _ key => [key]
  | .deriveMasterKey .. | .decryptMasterKey .. | .generateEncryptionKey => []

/-- What a ceremony waits for. -/
inductive CeremonyCommand
  /-- The crypto port. -/
  | newKey (source : KeySource)
  | deriveKeysFromMasterKey (masterKey : KeyRef) (email : String)
  | deriveSrpPassword (authKey : KeyRef)
  | encryptMasterKey (masterKey : KeyRef) (recoveryKey email : String)
  | destroyKey (site : DestroyCall) (key : KeyRef)
  | encrypt (plaintext : String) (key : KeyRef)
  | decrypt (data : EncryptedData) (key : KeyRef)
  | encryptVaultKeyWithMuk (vaultKey masterUnlockKey : KeyRef) (vaultId userId : String) (keyVersion : Nat)
  | generateSrpRegistration (srpPassword : String)
  | generateRsaKeyPair
  | generateSecretKey
  | generateRecoveryKey
  | generateUuid
  | validateRecoveryKey (recoveryKey : String)
  /-- The account store. -/
  | getPinnedKdfProfile (accountId : String)
  | getStoredSessionData (accountId : String)
  | storePinnedKdfProfile (profile : KdfProfile) (accountId : String)
  | storeSecretKey (key accountId : String)
  | storeEncryptedPrivateKey (encryptedPrivateKey : SealedText) (accountId : String)
  | storeVaultKeys (vaultKeys : List WrappedVaultKeyRecord) (accountId : String)
  | storeSessionData (masterUnlockKey : KeyRef) (accountId email userId : String) (session : Option StoredSession)
  | setMasterUnlockKey (key : KeyRef) (accountId : String)
  /-- The server. -/
  | loadRecoveryData
  | commit (payload : CommitPayload)
deriving DecidableEq, Repr

namespace CeremonyCommand

/-- What a command that does not reject is answered. -/
def Answer : CeremonyCommand → Type
  | newKey .. => KeyRef
  | deriveKeysFromMasterKey .. => DerivedKeyRefs
  | deriveSrpPassword .. | decrypt .. | generateSecretKey | generateRecoveryKey | generateUuid => String
  | encryptMasterKey .. | encrypt .. => EncryptedData
  | encryptVaultKeyWithMuk .. => EncryptedVaultKey
  | generateSrpRegistration .. => SrpRegistration
  | generateRsaKeyPair => RsaKeyPair
  | validateRecoveryKey .. => Bool
  | getPinnedKdfProfile .. => Option KdfProfile
  | getStoredSessionData .. => Option StoredSession
  | loadRecoveryData => AccountRecoveryData
  | destroyKey .. | storePinnedKdfProfile .. | storeSecretKey .. | storeEncryptedPrivateKey .. | storeVaultKeys .. |
    storeSessionData .. | setMasterUnlockKey .. | commit .. => Unit

/-- The keys that a command is given. -/
def keys : CeremonyCommand → List KeyRef
  | newKey source => source.keys
  | deriveKeysFromMasterKey key _ | deriveSrpPassword key | encryptMasterKey key _ _ | destroyKey _ key | encrypt _ key |
    decrypt _ key | storeSessionData key _ _ _ _ | setMasterUnlockKey key _ => [key]
  | encryptVaultKeyWithMuk vaultKey masterUnlockKey _ _ _ => [vaultKey, masterUnlockKey]
  | commit (.create keys) => [keys.masterUnlockKey]
  | _ => []

end CeremonyCommand

abbrev Ceremony := Async CeremonyCommand CeremonyCommand.Answer

namespace Ceremony

def call (c : CeremonyCommand) : Ceremony c.Answer := Async.await c

/-- A check that throws. -/
def check {α : Type} : Except String α → Ceremony α
  | .ok a => .ret a
  | .error _ => .throw

def destroy (site : DestroyCall) (key : KeyRef) : Ceremony PUnit :=
  (call (.destroyKey site key)).bind fun _ => .ret ⟨⟩

/-- A text that is parsed as sealed data. -/
def parseEncryptedData : SealedText → Ceremony EncryptedData
  | some data => .ret data
  | none => .throw

end Ceremony

open Ceremony

/-! ## The keys of an account -/

structure DeriveAccountKeysInput where
  accountPassword : String
  secretKey : String
  email : String
  profile : KdfProfile
  accountId : Option String
  recoveryKey : Option String
deriving DecidableEq, Repr

structure DerivedAccountKeys where
  srpPassword : String
  masterUnlockKey : KeyRef
  encryptedMasterKey : SealedText
deriving DecidableEq, Repr

/-- The pin of an account that is named. -/
def pinnedProfile (accountId : Option String) : Ceremony (Option KdfProfile) :=
  match given accountId with
  | some accountId => call (.getPinnedKdfProfile accountId)
  | none => pure none

/-- The master key under the recovery key, if one was given. -/
def sealMasterKey (masterKey : KeyRef) (input : DeriveAccountKeysInput) : Ceremony SealedText :=
  match given input.recoveryKey with
  | some recoveryKey => do
    let encryptedMasterKey ← call (.encryptMasterKey masterKey recoveryKey input.email)
    return some encryptedMasterKey
  | none => pure none

/-- The part of `deriveAccountKeys` in which the unlock key is still to be destroyed. -/
def finishDerivation (input : DeriveAccountKeysInput) (masterKey : KeyRef) (derivedKeys : DerivedKeyRefs) :
    Ceremony DerivedAccountKeys := do
  let srpPassword ← (call (.deriveSrpPassword derivedKeys.authKey)).always (destroy .authKey derivedKeys.authKey)
  let encryptedMasterKey ← sealMasterKey masterKey input
  return ⟨srpPassword, derivedKeys.masterUnlockKey, encryptedMasterKey⟩

/-- The `finally` destroys the unlock key when it has been derived and is not handed on, and then the
master key: it stands here at each of the three ways out. -/
def deriveAccountKeys (input : DeriveAccountKeysInput) : Ceremony DerivedAccountKeys := do
  let pinned ← pinnedProfile input.accountId
  check (validateKdfProfileOrThrow input.profile pinned)
  let masterKey ← call (.newKey (.deriveMasterKey input.accountPassword input.secretKey input.email input.profile))
  let derivedKeys ← (call (.deriveKeysFromMasterKey masterKey input.email)).onThrow (destroy .masterKey masterKey)
  let result ← (finishDerivation input masterKey derivedKeys).onThrow do
    destroy .failedUnlockKey derivedKeys.masterUnlockKey
    destroy .masterKey masterKey
  destroy .masterKey masterKey
  return result

/-! ## Vault keys -/

def unwrapVaultKey (encryptedVaultKey : EncryptedVaultKey) (masterUnlockKey : KeyRef)
    (encryptedPrivateKey : Option SealedText) (expectedVaultId expectedUserId : Option String) : Ceremony KeyRef :=
  match encryptedVaultKey with
  | .envelope wrapped => do
    let context ← check (unwrapContext wrapped expectedVaultId expectedUserId)
    call (.newKey (.unwrapKey wrapped.data masterUnlockKey context))
  | .other text =>
    match encryptedPrivateKey with
    | none => .throw
    | some encryptedPrivateKey => do
      let data ← parseEncryptedData encryptedPrivateKey
      call (.newKey (.decryptRsaWrappedKey text data masterUnlockKey))

def wrapVaultKeyForOwner (vaultKey masterUnlockKey : KeyRef) (vaultId userId : String) (keyVersion : Nat) :
    Ceremony EncryptedVaultKey :=
  call (.encryptVaultKeyWithMuk vaultKey masterUnlockKey vaultId userId keyVersion)

def decryptPrivateKey (encryptedPrivateKey : SealedText) (masterUnlockKey : KeyRef) : Ceremony String := do
  let data ← parseEncryptedData encryptedPrivateKey
  call (.decrypt data masterUnlockKey)

/-- An owner-wrapped key under another unlock key, as the loops of `reKeyAccount` and of
`recoverAccount` have it. -/
def rewrapVaultKey (userId : String) (current next : KeyRef) (entry : WrappedVaultKeyRecord) :
    Ceremony WrappedVaultKeyRecord := do
  let vaultKey ← unwrapVaultKey entry.encryptedVaultKey current none (some entry.vaultId) (some userId)
  let encryptedVaultKey ← Async.always (do
    let keyVersion ← check (ownerWrapKeyVersion entry.encryptedVaultKey)
    wrapVaultKeyForOwner vaultKey next entry.vaultId userId keyVersion) (destroy .vaultKey vaultKey)
  return ⟨entry.vaultId, encryptedVaultKey⟩

/-- The loop over the vault keys: the records that are sent, and the whole set with the re-wrapped
entries replaced. -/
def rewrapVaultKeys (userId : String) (current next : KeyRef) :
    List WrappedVaultKeyRecord → Ceremony (List WrappedVaultKeyRecord × List WrappedVaultKeyRecord)
  | [] => pure ([], [])
  | entry :: rest =>
    if isOwnerWrappedVaultKey entry.encryptedVaultKey then do
      let rewrapped ← rewrapVaultKey userId current next entry
      let (encryptedVaultKeys, vaultKeys) ← rewrapVaultKeys userId current next rest
      return (rewrapped :: encryptedVaultKeys, rewrapped :: vaultKeys)
    else do
      let (encryptedVaultKeys, vaultKeys) ← rewrapVaultKeys userId current next rest
      return (encryptedVaultKeys, entry :: vaultKeys)

/-! ## The three re-key ceremonies -/

structure ReKeyInput where
  accountId : String
  userId : String
  currentEmail : String
  nextEmail : String
  currentPassword : String
  nextPassword : String
  currentSecretKey : String
  nextSecretKey : String
  encryptedPrivateKey : SealedText
  vaultKeys : List WrappedVaultKeyRecord
deriving DecidableEq, Repr

structure ReKeyedAccount where
  payload : AccountReKeyPayload
  vaultKeys : List WrappedVaultKeyRecord
  masterUnlockKey : KeyRef
deriving DecidableEq, Repr

/-- The part of `reKeyAccount` in which the next unlock key is still to be destroyed. -/
def reKeyUnder (input : ReKeyInput) (privateKeyPem : String) (current : KeyRef) (next : DerivedAccountKeys) :
    Ceremony ReKeyedAccount := do
  let registration ← call (.generateSrpRegistration next.srpPassword)
  let encryptedPrivateKey ← call (.encrypt privateKeyPem next.masterUnlockKey)
  let (encryptedVaultKeys, vaultKeys) ← rewrapVaultKeys input.userId current next.masterUnlockKey input.vaultKeys
  return {
    payload := {
      srpSalt := registration.salt
      srpVerifier := registration.verifier
      encryptedPrivateKey := some encryptedPrivateKey
      encryptedVaultKeys := encryptedVaultKeys
      kdfParams := currentKdfProfile }
    vaultKeys := vaultKeys
    masterUnlockKey := next.masterUnlockKey }

def reKeyAccount (input : ReKeyInput) : Ceremony ReKeyedAccount := do
  let some currentProfile ← call (.getPinnedKdfProfile input.accountId) | .throw
  let current ← deriveAccountKeys {
    accountPassword := input.currentPassword
    secretKey := input.currentSecretKey
    email := input.currentEmail
    profile := currentProfile
    accountId := some input.accountId
    recoveryKey := none }
  Async.always (do
    let privateKeyPem ← decryptPrivateKey input.encryptedPrivateKey current.masterUnlockKey
    check (validateKdfProfileOrThrow currentKdfProfile none)
    let next ← deriveAccountKeys {
      accountPassword := input.nextPassword
      secretKey := input.nextSecretKey
      email := input.nextEmail
      profile := currentKdfProfile
      accountId := none
      recoveryKey := none }
    (reKeyUnder input privateKeyPem current.masterUnlockKey next).onThrow
      (destroy .nextUnlockKey next.masterUnlockKey))
    (destroy .currentUnlockKey current.masterUnlockKey)

structure ChangeAccountPasswordInput where
  accountId : String
  email : String
  userId : String
  currentPassword : String
  newPassword : String
  secretKey : String
  encryptedPrivateKey : SealedText
  vaultKeys : List WrappedVaultKeyRecord
deriving DecidableEq, Repr

def ChangeAccountPasswordInput.reKey (input : ChangeAccountPasswordInput) : ReKeyInput where
  accountId := input.accountId
  userId := input.userId
  currentEmail := input.email
  nextEmail := input.email
  currentPassword := input.currentPassword
  nextPassword := input.newPassword
  currentSecretKey := input.secretKey
  nextSecretKey := input.secretKey
  encryptedPrivateKey := input.encryptedPrivateKey
  vaultKeys := input.vaultKeys

def changeAccountPassword (input : ChangeAccountPasswordInput) : Ceremony KdfProfile := do
  let reKeyed ← reKeyAccount input.reKey
  (call (.commit (.changePassword reKeyed.payload))).always (destroy .committedUnlockKey reKeyed.masterUnlockKey)
  call (.storePinnedKdfProfile reKeyed.payload.kdfParams input.accountId)
  return reKeyed.payload.kdfParams

structure ChangeAccountEmailInput where
  accountId : String
  currentEmail : String
  newEmail : String
  userId : String
  currentPassword : String
  secretKey : String
  encryptedPrivateKey : SealedText
  vaultKeys : List WrappedVaultKeyRecord
deriving DecidableEq, Repr

def ChangeAccountEmailInput.reKey (input : ChangeAccountEmailInput) (newEmail : String) : ReKeyInput where
  accountId := input.accountId
  userId := input.userId
  currentEmail := input.currentEmail
  nextEmail := newEmail
  currentPassword := input.currentPassword
  nextPassword := input.currentPassword
  currentSecretKey := input.secretKey
  nextSecretKey := input.secretKey
  encryptedPrivateKey := input.encryptedPrivateKey
  vaultKeys := input.vaultKeys

/-- `normalizeEmail` trims the email and puts it in lower case. -/
def changeAccountEmail (normalizeEmail : String → String) (input : ChangeAccountEmailInput) :
    Ceremony (KdfProfile × String) := do
  let newEmail := normalizeEmail input.newEmail
  let reKeyed ← reKeyAccount (input.reKey newEmail)
  (call (.commit (.updateEmail reKeyed.payload newEmail))).always (destroy .committedUnlockKey reKeyed.masterUnlockKey)
  call (.storePinnedKdfProfile reKeyed.payload.kdfParams input.accountId)
  return (reKeyed.payload.kdfParams, newEmail)

structure RegenerateSecretKeyInput where
  accountId : String
  email : String
  userId : String
  currentPassword : String
  currentSecretKey : String
  newSecretKey : String
  encryptedPrivateKey : SealedText
  vaultKeys : List WrappedVaultKeyRecord
deriving DecidableEq, Repr

def RegenerateSecretKeyInput.reKey (input : RegenerateSecretKeyInput) : ReKeyInput where
  accountId := input.accountId
  userId := input.userId
  currentEmail := input.email
  nextEmail := input.email
  currentPassword := input.currentPassword
  nextPassword := input.currentPassword
  currentSecretKey := input.currentSecretKey
  nextSecretKey := input.newSecretKey
  encryptedPrivateKey := input.encryptedPrivateKey
  vaultKeys := input.vaultKeys

/-- The local writes of `regenerateAccountSecretKey`. With the last one the store owns the key. -/
def adoptSecretKey (input : RegenerateSecretKeyInput) (reKeyed : ReKeyedAccount) : Ceremony PUnit := do
  call (.storePinnedKdfProfile reKeyed.payload.kdfParams input.accountId)
  call (.storeSecretKey input.newSecretKey input.accountId)
  call (.storeEncryptedPrivateKey reKeyed.payload.encryptedPrivateKey input.accountId)
  call (.storeVaultKeys reKeyed.vaultKeys input.accountId)
  let session ← call (.getStoredSessionData input.accountId)
  call (.storeSessionData reKeyed.masterUnlockKey input.accountId input.email input.userId session)
  call (.setMasterUnlockKey reKeyed.masterUnlockKey input.accountId)

def regenerateAccountSecretKey (input : RegenerateSecretKeyInput) : Ceremony KdfProfile := do
  let reKeyed ← reKeyAccount input.reKey
  (call (.commit (.regenerateSecretKey reKeyed.payload (getSecretKeyHint input.newSecretKey)))).onThrow
    (destroy .committedUnlockKey reKeyed.masterUnlockKey)
  (adoptSecretKey input reKeyed).onThrow (destroy .committedUnlockKey reKeyed.masterUnlockKey)
  return reKeyed.payload.kdfParams

/-! ## The Recovery Key -/

structure PrepareRecoveryKeyInput where
  accountId : String
  email : String
  password : String
  secretKey : String
  encryptedPrivateKey : SealedText
deriving DecidableEq, Repr

structure PreparedRecoveryKey where
  recoveryKey : String
  encryptedMasterKey : SealedText
  recoveryKeyHint : String
deriving DecidableEq, Repr

def prepareRecoveryKey (input : PrepareRecoveryKeyInput) : Ceremony PreparedRecoveryKey := do
  let some profile ← call (.getPinnedKdfProfile input.accountId) | .throw
  let recoveryKey ← call .generateRecoveryKey
  let derived ← deriveAccountKeys {
    accountPassword := input.password
    secretKey := input.secretKey
    email := input.email
    profile := profile
    accountId := some input.accountId
    recoveryKey := some recoveryKey }
  Async.always (do
    let _ ← decryptPrivateKey input.encryptedPrivateKey derived.masterUnlockKey
    let encryptedMasterKey ← parseEncryptedData derived.encryptedMasterKey
    return ⟨recoveryKey, some encryptedMasterKey, getRecoveryKeyHint recoveryKey⟩)
    (destroy .recoveryUnlockKey derived.masterUnlockKey)

structure RecoverAccountInput where
  email : String
  recoveryKey : String
  newPassword : String
deriving DecidableEq, Repr

structure RecoveredAccount where
  userId : String
  secretKey : String
  kdfProfile : KdfProfile
  encryptedPrivateKey : SealedText
  masterUnlockKey : KeyRef
deriving DecidableEq, Repr

/-- The part of `recoverAccount` in which the next unlock key is still to be destroyed. -/
def recoverUnder (input : RecoverAccountInput) (recoveryData : AccountRecoveryData) (privateKeyPem secretKey : String)
    (old : KeyRef) (next : DerivedAccountKeys) : Ceremony RecoveredAccount := do
  let encryptedMasterKey ← parseEncryptedData next.encryptedMasterKey
  let registration ← call (.generateSrpRegistration next.srpPassword)
  let encryptedPrivateKey ← call (.encrypt privateKeyPem next.masterUnlockKey)
  let (encryptedVaultKeys, _) ← rewrapVaultKeys recoveryData.userId old next.masterUnlockKey recoveryData.vaultKeys
  call (.commit (.recover {
    srpSalt := registration.salt
    srpVerifier := registration.verifier
    encryptedPrivateKey := some encryptedPrivateKey
    encryptedMasterKey := some encryptedMasterKey
    recoveryKeyHint := getRecoveryKeyHint input.recoveryKey
    secretKeyHint := getSecretKeyHint secretKey
    encryptedVaultKeys := encryptedVaultKeys
    kdfParams := currentKdfProfile }))
  return ⟨recoveryData.userId, secretKey, currentKdfProfile, some encryptedPrivateKey, next.masterUnlockKey⟩

def recoverAccount (input : RecoverAccountInput) : Ceremony RecoveredAccount := do
  let valid : Bool ← call (.validateRecoveryKey input.recoveryKey)
  if valid then do
    let recoveryData ← call .loadRecoveryData
    let encryptedMasterKey ← parseEncryptedData recoveryData.encryptedMasterKey
    let oldMasterKey ← call (.newKey (.decryptMasterKey encryptedMasterKey input.recoveryKey input.email))
    let oldKeys ← (call (.deriveKeysFromMasterKey oldMasterKey input.email)).always (destroy .oldMasterKey oldMasterKey)
    Async.always (do
      destroy .oldAuthKey oldKeys.authKey
      let privateKeyPem ← decryptPrivateKey recoveryData.encryptedPrivateKey oldKeys.masterUnlockKey
      let secretKey ← call .generateSecretKey
      check (validateKdfProfileOrThrow currentKdfProfile none)
      let next ← deriveAccountKeys {
        accountPassword := input.newPassword
        secretKey := secretKey
        email := input.email
        profile := currentKdfProfile
        accountId := none
        recoveryKey := some input.recoveryKey }
      (recoverUnder input recoveryData privateKeyPem secretKey oldKeys.masterUnlockKey next).onThrow
        (destroy .nextUnlockKey next.masterUnlockKey))
      (destroy .oldUnlockKey oldKeys.masterUnlockKey)
  else .throw

/-! ## A new account -/

structure CreateAccountKeysInput where
  email : String
  password : String
  secretKey : String
  recoveryKey : String
deriving DecidableEq, Repr

/-- The part of `createAccountKeys` in which the unlock key is still to be destroyed. The two ids are
asked for together in the source; neither has to do with a key. -/
def createUnder (input : CreateAccountKeysInput) (derived : DerivedAccountKeys) : Ceremony CreatedAccountKeys := do
  let encryptedMasterKey ← parseEncryptedData derived.encryptedMasterKey
  let userId ← call .generateUuid
  let vaultId ← call .generateUuid
  let registration ← call (.generateSrpRegistration derived.srpPassword)
  let rsaKeyPair ← call .generateRsaKeyPair
  let encryptedPrivateKey ← call (.encrypt rsaKeyPair.privateKey derived.masterUnlockKey)
  let vaultKey ← call (.newKey .generateEncryptionKey)
  let encryptedVaultKey ← (wrapVaultKeyForOwner vaultKey derived.masterUnlockKey vaultId userId 1).always
    (destroy .vaultKey vaultKey)
  let keys : CreatedAccountKeys := {
    userId := userId
    vaultId := vaultId
    kdfProfile := currentKdfProfile
    srpSalt := registration.salt
    srpVerifier := registration.verifier
    publicKey := rsaKeyPair.publicKey
    encryptedPrivateKey := some encryptedPrivateKey
    encryptedMasterKey := some encryptedMasterKey
    encryptedVaultKey := encryptedVaultKey
    secretKeyHint := getSecretKeyHint input.secretKey
    recoveryKeyHint := getRecoveryKeyHint input.recoveryKey
    masterUnlockKey := derived.masterUnlockKey }
  call (.commit (.create keys))
  return keys

def createAccountKeys (input : CreateAccountKeysInput) : Ceremony CreatedAccountKeys := do
  check (validateKdfProfileOrThrow currentKdfProfile none)
  let derived ← deriveAccountKeys {
    accountPassword := input.password
    secretKey := input.secretKey
    email := input.email
    profile := currentKdfProfile
    accountId := none
    recoveryKey := some input.recoveryKey }
  (createUnder input derived).onThrow (destroy .createdUnlockKey derived.masterUnlockKey)

end Bittery
