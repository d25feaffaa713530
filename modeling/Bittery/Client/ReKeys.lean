/-
What the ceremonies that change the master key send: the vault keys of the account under the new
unlock key.

The crypto core's functions are parameters. A run is one in which the port answers as they say, and
in which what is wrapped can be unwrapped; everything may reject.
-/
import Bittery.Client.KeyHandles

namespace Bittery

open Lib CeremonyState Ceremony

/-! ## The crypto core -/

/-- The functions of the core that make keys. -/
structure AccountCipher (κ : Type) where
  deriveMasterKey : String → String → String → KdfProfile → κ
  deriveKeysFromMasterKey : κ → String → κ × κ
  decryptMasterKey : EncryptedData → String → String → Option κ
  unwrapKey : EncryptedData → κ → EncryptionContext → Option κ

namespace AccountCipher

variable {κ : Type} (cipher : AccountCipher κ)

/-- The unlock key of an account. -/
def unlockKey (accountPassword secretKey email : String) (profile : KdfProfile) : κ :=
  (cipher.deriveKeysFromMasterKey (cipher.deriveMasterKey accountPassword secretKey email profile) email).2

/-- What an owner-wrapped key opens to, as `unwrapVaultKey` has it, and the context it is bound to. -/
def opens (masterUnlockKey : κ) (expectedVaultId expectedUserId : String) :
    EncryptedVaultKey → Option (EncryptionContext × κ)
  | .envelope wrapped =>
    match unwrapContext wrapped (some expectedVaultId) (some expectedUserId) with
    | .ok context => (cipher.unwrapKey wrapped.data masterUnlockKey context).map fun key => (context, key)
    | .error _ => none
  | .other _ => none

/-- Both open to one vault key, each under its unlock key, for the same vault, user and key version.
An id that is empty is not compared with that of the old context. -/
def Rewrapped (userId : String) (current next : κ) (entry record : WrappedVaultKeyRecord) : Prop :=
  record.vaultId = entry.vaultId ∧ ∃ context vaultKey,
    cipher.opens current entry.vaultId userId entry.encryptedVaultKey = some (context, vaultKey) ∧
    cipher.opens next entry.vaultId userId record.encryptedVaultKey =
      some (buildVaultKeyEncryptionContext entry.vaultId userId context.version, vaultKey) ∧
    (entry.vaultId ≠ "" → context.vaultId = entry.vaultId) ∧ (userId ≠ "" → context.userId = userId)

end AccountCipher

/-! ## Changes of the master key -/

/-- A ceremony that replaces the master key of an account. -/
inductive MasterKeyChange
  | password (input : ChangeAccountPasswordInput)
  | email (normalizeEmail : String → String) (input : ChangeAccountEmailInput)
  | secretKey (input : RegenerateSecretKeyInput)
  | recovery (input : RecoverAccountInput)

/-- What a recovery is handed by the server, and the secret key that the core generates for it. -/
structure RecoverySetting where
  data : AccountRecoveryData
  secretKey : String
deriving DecidableEq, Repr

namespace MasterKeyChange

/-- The ceremony; it returns the secret key that is the account's from then on. -/
def run : MasterKeyChange → Ceremony String
  | .password input => (changeAccountPassword input).bind fun _ => .ret input.secretKey
  | .email normalizeEmail input => (changeAccountEmail normalizeEmail input).bind fun _ => .ret input.secretKey
  | .secretKey input => (regenerateAccountSecretKey input).bind fun _ => .ret input.newSecretKey
  | .recovery input => (recoverAccount input).bind fun recovered => .ret recovered.secretKey

/-- The arguments of `reKeyAccount`. -/
def reKey : MasterKeyChange → Option ReKeyInput
  | .password input => some input.reKey
  | .email normalizeEmail input => some (input.reKey (normalizeEmail input.newEmail))
  | .secretKey input => some input.reKey
  | .recovery _ => none

variable {κ : Type} (cipher : AccountCipher κ) (setting : RecoverySetting)

def newSecretKey : MasterKeyChange → String
  | .password input => input.secretKey
  | .email _ input => input.secretKey
  | .secretKey input => input.newSecretKey
  | .recovery _ => setting.secretKey

def userId : MasterKeyChange → String
  | .password input => input.userId
  | .email _ input => input.userId
  | .secretKey input => input.userId
  | .recovery _ => setting.data.userId

def vaultKeys : MasterKeyChange → List WrappedVaultKeyRecord
  | .password input => input.vaultKeys
  | .email _ input => input.vaultKeys
  | .secretKey input => input.vaultKeys
  | .recovery _ => setting.data.vaultKeys

/-- The new unlock key. -/
def nextKey : MasterKeyChange → κ
  | .password input => cipher.unlockKey input.newPassword input.secretKey input.email currentKdfProfile
  | .email normalizeEmail input =>
    cipher.unlockKey input.currentPassword input.secretKey (normalizeEmail input.newEmail) currentKdfProfile
  | .secretKey input => cipher.unlockKey input.currentPassword input.newSecretKey input.email currentKdfProfile
  | .recovery input => cipher.unlockKey input.newPassword setting.secretKey input.email currentKdfProfile

/-- The unlock key before: that of a pinned profile, or the one that the recovery key holds. -/
def IsCurrentKey (current : κ) : MasterKeyChange → Prop
  | .password input => ∃ profile, current = cipher.unlockKey input.currentPassword input.secretKey input.email profile
  | .email _ input => ∃ profile, current = cipher.unlockKey input.currentPassword input.secretKey input.currentEmail profile
  | .secretKey input =>
    ∃ profile, current = cipher.unlockKey input.currentPassword input.currentSecretKey input.email profile
  | .recovery input => ∃ encryptedMasterKey ∈ setting.data.encryptedMasterKey,
      ∃ masterKey ∈ cipher.decryptMasterKey encryptedMasterKey input.recoveryKey input.email,
      current = (cipher.deriveKeysFromMasterKey masterKey input.email).2

/-- The records are the owner-wrapped vault keys, in order, each under the new unlock key. -/
def Covers (change : MasterKeyChange) (records : List WrappedVaultKeyRecord) : Prop :=
  ∃ current, change.IsCurrentKey cipher setting current ∧
    List.Forall₂ (cipher.Rewrapped (change.userId setting) current (change.nextKey cipher setting))
      ((change.vaultKeys setting).filter fun entry => isOwnerWrappedVaultKey entry.encryptedVaultKey) records

/-- An owner-wrapped entry is replaced, and another is as it was. -/
def Replaces (userId : String) (current next : κ) (entry record : WrappedVaultKeyRecord) : Prop :=
  if isOwnerWrappedVaultKey entry.encryptedVaultKey then cipher.Rewrapped userId current next entry record
  else record = entry

/-- The whole set, with the owner-wrapped entries under the new unlock key. -/
def KeepsAll (change : MasterKeyChange) (vaultKeys : List WrappedVaultKeyRecord) : Prop :=
  ∃ current, change.IsCurrentKey cipher setting current ∧
    List.Forall₂ (Replaces cipher (change.userId setting) current (change.nextKey cipher setting))
      (change.vaultKeys setting) vaultKeys

end MasterKeyChange

/-- The vault keys of a payload. -/
def CommitPayload.encryptedVaultKeys : CommitPayload → List WrappedVaultKeyRecord
  | .changePassword payload | .updateEmail payload _ | .regenerateSecretKey payload _ => payload.encryptedVaultKeys
  | .recover payload => payload.encryptedVaultKeys
  | .create keys => [⟨keys.vaultId, keys.encryptedVaultKey⟩]

/-! ## Runs -/

/-- The keys of a ceremony, and whether one of its commands was rejected. -/
structure ReKeyRun (κ : Type) where
  state : CeremonyState κ
  rejected : Bool

namespace ReKeyRun

variable {κ : Type}

def initial : ReKeyRun κ := ⟨CeremonyState.initial, false⟩

def perform (s : ReKeyRun κ) (c : CeremonyCommand) (found : Finds κ) : Option (ReKeyRun κ × Option c.Answer) :=
  some (⟨(s.state.settle c (found c)).1, s.rejected || (s.state.settle c (found c)).2.isNone⟩,
    (s.state.settle c (found c)).2)

/-- What the core answers, if it does. The port gives it the keys that the handles stand for, and what
it wraps under a context it unwraps under that context. -/
def Lawful (cipher : AccountCipher κ) (setting : RecoverySetting) (s : CeremonyState κ) :
    (c : CeremonyCommand) → Option (c.Found κ) → Prop
  | .newKey (.deriveMasterKey accountPassword secretKey email profile), some key =>
    key = cipher.deriveMasterKey accountPassword secretKey email profile
  | .newKey (.decryptMasterKey data recoveryKey email), some key => cipher.decryptMasterKey data recoveryKey email = some key
  | .newKey (.unwrapKey data wrappingKey context), some key =>
    ∃ wrapping, s.keys[wrappingKey.id]? = some wrapping ∧ cipher.unwrapKey data wrapping context = some key
  | .deriveKeysFromMasterKey masterKey email, some found =>
    ∃ master, s.keys[masterKey.id]? = some master ∧ found = cipher.deriveKeysFromMasterKey master email
  | .encryptVaultKeyWithMuk vaultKey masterUnlockKey vaultId userId keyVersion, some text =>
    ∃ key unlock data, s.keys[vaultKey.id]? = some key ∧ s.keys[masterUnlockKey.id]? = some unlock ∧
      text = EncryptedVaultKey.envelope ⟨data, some ⟨vaultId, userId, some keyVersion, VAULT_KEY_WRAP_PURPOSE⟩⟩ ∧
      cipher.unwrapKey data unlock (buildVaultKeyEncryptionContext vaultId userId keyVersion) = some key
  | .generateSecretKey, some secretKey => secretKey = setting.secretKey
  | .loadRecoveryData, some data => data = setting.data
  | _, _ => True

/-- What a change of the master key commits, and what it stores in place of the vault keys. -/
def Permits (cipher : AccountCipher κ) (setting : RecoverySetting) (change : MasterKeyChange) (s : ReKeyRun κ) :
    CeremonyCommand → Prop
  | .commit payload => s.rejected = false ∧ s.state.sent = [] ∧ change.Covers cipher setting payload.encryptedVaultKeys
  | .storeVaultKeys vaultKeys _ => change.KeepsAll cipher setting vaultKeys
  | _ => True

def reKeys (cipher : AccountCipher κ) (setting : RecoverySetting) (change : MasterKeyChange) :
    Contract (ReKeyRun κ) CeremonyCommand (Finds κ) CeremonyCommand.Answer where
  inv _ := True
  rely s t := s = t
  rely_refl _ := rfl
  rely_trans _ _ _ h h' := h.trans h'
  allowed _ s c found := Lawful cipher setting s.state c (found c)
  guar _ s c _ := Permits cipher setting change s c

/-- The keys that were made, what was sent, and whether a command was rejected. -/
def part (s : ReKeyRun κ) : List κ × List CommitPayload × Bool := (s.state.keys, s.state.sent, s.rejected)

end ReKeyRun

end Bittery
