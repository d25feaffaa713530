/-
What a ciphertext is bound to: the authenticated contexts of `encryption.rs` and `key_rotation.rs`,
and the contexts that the clients bind items, attachments and wrapped vault keys to.
-/
import Bittery.Crypto.KeyDerivation

namespace Bittery.CryptoCore

open Lib

structure AadContext where
  vaultId : String
  entityId : String
  entityType : String
  version : UInt64
  userId : String
deriving DecidableEq, Repr

def validateContextField (value fieldName : String) : Except CoreError Unit :=
  if value.toList.contains (Char.ofNat 0) then
    .error (.invalidInput ("AAD context field " ++ fieldName ++ " contains NUL byte"))
  else .ok ()

/-- The fields, a zero byte between them. -/
def AadContext.bytes (context : AadContext) : List UInt8 :=
  asBytes context.vaultId ++ 0 :: (asBytes context.entityId ++ 0 :: (asBytes context.entityType ++
    0 :: (asBytes (toString context.version) ++ 0 :: asBytes context.userId)))

def AadContext.toAadBytes (context : AadContext) : Except CoreError (List UInt8) := do
  validateContextField context.vaultId "vaultId"
  validateContextField context.entityId "entityId"
  validateContextField context.entityType "entityType"
  validateContextField context.userId "userId"
  pure context.bytes

/-- The associated data of a ciphertext that no context is given for. -/
def LEGACY_AAD : List UInt8 := []

def VAULT_KEY_WRAP_ENTITY_TYPE : String := "vault_key"
def VAULT_KEY_WRAP_PURPOSE : String := "vault-key-wrap"

structure VaultKeyWrapContext where
  vaultId : String
  userId : String
  keyVersion : UInt64
  purpose : String
deriving DecidableEq, Repr

def VaultKeyWrapContext.new (vaultId userId : String) (keyVersion : UInt64) : VaultKeyWrapContext where
  vaultId := vaultId
  userId := userId
  keyVersion := keyVersion
  purpose := VAULT_KEY_WRAP_PURPOSE

def VaultKeyWrapContext.toAadContext (context : VaultKeyWrapContext) : AadContext where
  vaultId := context.vaultId
  entityId := context.purpose
  entityType := VAULT_KEY_WRAP_ENTITY_TYPE
  version := context.keyVersion
  userId := context.userId

inductive AttachmentPart
  | name
  | contentType
  | blob
  | key
deriving DecidableEq, Repr

def AttachmentPart.entityType : AttachmentPart → String
  | .name => "attachment_name"
  | .contentType => "attachment_content_type"
  | .blob => "attachment_blob"
  | .key => "attachment_key"

/-- What the clients bind a ciphertext to. -/
inductive BoundContext
  | item (vaultId itemId : String) (version : UInt64) (userId : String)
  | attachment (part : AttachmentPart) (vaultId attachmentId : String) (version : UInt64) (userId : String)
  | vaultKeyWrap (context : VaultKeyWrapContext)
deriving DecidableEq, Repr

def BoundContext.toAadContext : BoundContext → AadContext
  | .item vaultId itemId version userId => { vaultId, entityId := itemId, entityType := "item", version, userId }
  | .attachment part vaultId attachmentId version userId =>
    { vaultId, entityId := attachmentId, entityType := part.entityType, version, userId }
  | .vaultKeyWrap context => context.toAadContext

/-! ## Contexts are told apart -/

theorem AttachmentPart.entityType_inj {part part' : AttachmentPart} (h : part.entityType = part'.entityType) :
    part = part' := by
  cases part <;> cases part' <;> first | rfl | exact absurd h (by decide)

theorem AttachmentPart.entityType_ne_item (part : AttachmentPart) : part.entityType ≠ "item" := by
  cases part <;> decide

theorem AttachmentPart.entityType_ne_vaultKey (part : AttachmentPart) : part.entityType ≠ VAULT_KEY_WRAP_ENTITY_TYPE := by
  cases part <;> decide

/-- Every kind of context has entity types of its own. -/
theorem BoundContext.toAadContext_inj {context context' : BoundContext}
    (h : context.toAadContext = context'.toAadContext) : context = context' := by
  have htype := congrArg AadContext.entityType h
  cases context with
  | item =>
    cases context' with
    | item => simpa [toAadContext] using h
    | attachment part => exact absurd htype.symm part.entityType_ne_item
    | vaultKeyWrap => exact absurd (show "item" = VAULT_KEY_WRAP_ENTITY_TYPE from htype) (by decide)
  | attachment part =>
    cases context' with
    | item => exact absurd htype part.entityType_ne_item
    | attachment part' =>
      obtain rfl := AttachmentPart.entityType_inj htype
      simpa [toAadContext] using h
    | vaultKeyWrap => exact absurd htype part.entityType_ne_vaultKey
  | vaultKeyWrap context =>
    cases context' with
    | item => exact absurd (show VAULT_KEY_WRAP_ENTITY_TYPE = "item" from htype) (by decide)
    | attachment part => exact absurd htype.symm part.entityType_ne_vaultKey
    | vaultKeyWrap context' =>
      obtain ⟨vaultId, userId, keyVersion, purpose⟩ := context
      obtain ⟨vaultId', userId', keyVersion', purpose'⟩ := context'
      simp only [toAadContext, VaultKeyWrapContext.toAadContext, AadContext.mk.injEq, true_and] at h
      obtain ⟨rfl, rfl, rfl, rfl⟩ := h
      rfl

/-- A field that passes is one whose bytes hold no separator. -/
theorem notMem_of_validateContextField {value fieldName : String} (h : validateContextField value fieldName = .ok ()) :
    0 ∉ asBytes value := by
  unfold validateContextField at h
  split at h
  · cases h
  · next hnul =>
    rw [asBytes_eq]
    intro hmem
    exact hnul (by simpa using Utf8.zero_mem_of_mem_encode hmem)

theorem validateContextField_ok {value fieldName : String} (h : Char.ofNat 0 ∉ value.toList) :
    validateContextField value fieldName = .ok () :=
  if_neg (by simpa using h)

/-- A context whose fields pass has its bytes. -/
theorem AadContext.toAadBytes_ok {context : AadContext} (hvault : Char.ofNat 0 ∉ context.vaultId.toList)
    (hentity : Char.ofNat 0 ∉ context.entityId.toList) (htype : Char.ofNat 0 ∉ context.entityType.toList)
    (huser : Char.ofNat 0 ∉ context.userId.toList) : context.toAadBytes = .ok context.bytes := by
  simp only [toAadBytes, validateContextField_ok hvault, validateContextField_ok hentity, validateContextField_ok htype,
    validateContextField_ok huser, bind, Except.bind, pure, Except.pure]

theorem AadContext.fields_of_toAadBytes {context : AadContext} {bytes : List UInt8}
    (h : context.toAadBytes = .ok bytes) :
    0 ∉ asBytes context.vaultId ∧ 0 ∉ asBytes context.entityId ∧ 0 ∉ asBytes context.entityType ∧
      bytes = context.bytes := by
  unfold toAadBytes at h
  cases hvault : validateContextField context.vaultId "vaultId" with
  | error e => simp [hvault, bind, Except.bind] at h
  | ok =>
    cases hentity : validateContextField context.entityId "entityId" with
    | error e => simp [hvault, hentity, bind, Except.bind] at h
    | ok =>
      cases htype : validateContextField context.entityType "entityType" with
      | error e => simp [hvault, hentity, htype, bind, Except.bind] at h
      | ok =>
        cases huser : validateContextField context.userId "userId" with
        | error e => simp [hvault, hentity, htype, huser, bind, Except.bind] at h
        | ok =>
          simp only [hvault, hentity, htype, huser, bind, Except.bind, pure, Except.pure, Except.ok.injEq] at h
          exact ⟨notMem_of_validateContextField hvault, notMem_of_validateContextField hentity,
            notMem_of_validateContextField htype, h.symm⟩

theorem toString_inj {version version' : UInt64} (h : toString version = toString version') : version = version' := by
  have hdigits : Nat.toDigits 10 version.toNat = Nat.toDigits 10 version'.toNat := by
    rw [← Nat.toList_repr, ← Nat.toList_repr]
    exact congrArg String.toList h
  have hvalue := congrArg (Nat.ofDigitChars 10 · 0) hdigits
  simp only [Nat.ofDigitChars_ten_toDigits] at hvalue
  exact UInt64.toNat_inj.1 hvalue

theorem zero_notMem_toString (version : UInt64) : 0 ∉ asBytes (toString version) := by
  rw [asBytes_eq]
  intro hmem
  have hdigit := Utf8.zero_mem_of_mem_encode hmem
  rw [show toString version = version.toNat.repr from rfl, Nat.toList_repr] at hdigit
  exact absurd (Nat.isDigit_of_mem_toDigits (by decide) (by decide) hdigit) (by decide)

/-- Whatever the fields hold, the bytes of a context are those of no other. -/
theorem AadContext.toAadBytes_inj {context context' : AadContext} {bytes : List UInt8}
    (h : context.toAadBytes = .ok bytes) (h' : context'.toAadBytes = .ok bytes) : context = context' := by
  obtain ⟨hvault, hentity, htype, hbytes⟩ := fields_of_toAadBytes h
  obtain ⟨hvault', hentity', htype', hbytes'⟩ := fields_of_toAadBytes h'
  obtain ⟨vaultId, entityId, entityType, version, userId⟩ := context
  obtain ⟨vaultId', entityId', entityType', version', userId'⟩ := context'
  obtain ⟨hvaultId, hrest⟩ := Framing.append_cons_inj hvault hvault' (hbytes.symm.trans hbytes')
  obtain ⟨hentityId, hrest⟩ := Framing.append_cons_inj hentity hentity' hrest
  obtain ⟨hentityType, hrest⟩ := Framing.append_cons_inj htype htype' hrest
  obtain ⟨hversion, huserId⟩ := Framing.append_cons_inj (zero_notMem_toString _) (zero_notMem_toString _) hrest
  simp only [AadContext.mk.injEq]
  exact ⟨asBytes_inj hvaultId, asBytes_inj hentityId, asBytes_inj hentityType, toString_inj (asBytes_inj hversion),
    asBytes_inj huserId⟩

theorem AadContext.bytes_ne_legacy (context : AadContext) : context.bytes ≠ LEGACY_AAD := by
  simp [bytes, LEGACY_AAD]

theorem AadContext.ne_legacy_of_toAadBytes {context : AadContext} {bytes : List UInt8}
    (h : context.toAadBytes = .ok bytes) : bytes ≠ LEGACY_AAD :=
  (fields_of_toAadBytes h).2.2.2 ▸ context.bytes_ne_legacy

/-- **Contexts are separated**: the bytes of a context are those of no other, of its kind or of another, nor of
none; and so are the bytes that a password and a secret key are derived from. -/
theorem contexts_separated :
    (∀ (context context' : BoundContext) (bytes : List UInt8),
      context.toAadContext.toAadBytes = .ok bytes → context'.toAadContext.toAadBytes = .ok bytes →
        context = context' ∧ bytes ≠ LEGACY_AAD) ∧
    (∀ (context context' : AadContext) (bytes : List UInt8),
      context.toAadBytes = .ok bytes → context'.toAadBytes = .ok bytes → context = context' ∧ bytes ≠ LEGACY_AAD) ∧
    (∀ (accountPassword secretKey accountPassword' secretKey' : String) (bytes : List UInt8),
      combined accountPassword secretKey = .ok bytes → combined accountPassword' secretKey' = .ok bytes →
        accountPassword = accountPassword' ∧ secretKey = secretKey') :=
  ⟨fun _ _ _ h h' => ⟨BoundContext.toAadContext_inj (AadContext.toAadBytes_inj h h'), AadContext.ne_legacy_of_toAadBytes h⟩,
    fun _ _ _ h h' => ⟨AadContext.toAadBytes_inj h h', AadContext.ne_legacy_of_toAadBytes h⟩,
    fun _ _ _ _ _ h h' => combined_inj h h'⟩

theorem contexts_separated_example :
    let item := BoundContext.item "vault" "item" 3 "user"
    let wrap := VaultKeyWrapContext.new "vault" "user" 3
    (∃ bytes, item.toAadContext.toAadBytes = .ok bytes ∧ bytes ≠ LEGACY_AAD) ∧
      (∃ bytes, wrap.toAadContext.toAadBytes = .ok bytes ∧ bytes ≠ LEGACY_AAD) ∧
      ∃ bytes, combined "password" "A3" = .ok bytes ∧
        ∀ accountPassword secretKey, combined accountPassword secretKey = .ok bytes →
          accountPassword = "password" ∧ secretKey = "A3" := by
  intro item wrap
  have hitem : item.toAadContext.toAadBytes = .ok item.toAadContext.bytes :=
    AadContext.toAadBytes_ok (by decide) (by decide) (by decide) (by decide)
  have hwrap : wrap.toAadContext.toAadBytes = .ok wrap.toAadContext.bytes :=
    AadContext.toAadBytes_ok (by decide) (by decide) (by decide) (by decide)
  exact ⟨⟨_, hitem, (contexts_separated.1 item item _ hitem hitem).2⟩,
    ⟨_, hwrap, (contexts_separated.1 (.vaultKeyWrap wrap) (.vaultKeyWrap wrap) _ hwrap hwrap).2⟩,
    _, rfl, fun _ _ h => contexts_separated.2.2 _ _ _ _ _ h rfl⟩

end Bittery.CryptoCore
