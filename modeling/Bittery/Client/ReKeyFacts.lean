/-
A change of the master key loses no vault key.

Up to its commit a ceremony makes keys and is rejected as soon as a command is; `Prepares` says so,
with what it returns. The loop over the vault keys is one induction. After the commit nothing is sent.
-/
import Bittery.Client.ReKeys

namespace Bittery

open Lib Ceremony
open CeremonyState (settle_spares)

/-- A command that neither commits nor stores vault keys. -/
def CeremonyCommand.isQuiet : CeremonyCommand → Bool
  | commit _ | storeVaultKeys _ _ => false
  | _ => true

section

variable {κ α β : Type} {cipher : AccountCipher κ} {setting : RecoverySetting} {change : MasterKeyChange}

open ReKeyRun

theorem permits_of_isQuiet {c : CeremonyCommand} (hc : c.isQuiet = true) (s : ReKeyRun κ) :
    Permits cipher setting change s c := by
  cases c with
  | commit | storeVaultKeys => cases hc
  | _ => trivial

theorem settle_sent {c : CeremonyCommand} (hc : ∀ payload, c ≠ .commit payload) (s : CeremonyState κ)
    (found : Option (c.Found κ)) : (s.settle c found).1.sent = s.sent := by
  cases c with
  | commit payload => exact absurd rfl (hc payload)
  | newKey | deriveKeysFromMasterKey | setMasterUnlockKey => cases found <;> rfl
  | _ => rfl

theorem reKeys_stable (s t : ReKeyRun κ) (h : (reKeys cipher setting change).rely s t) : part t = part s := by
  obtain rfl : s = t := h
  rfl

/-- From keys, payloads and a mark on rejections, a ceremony ends with `Q`. -/
abbrev Changes (cipher : AccountCipher κ) (setting : RecoverySetting) (change : MasterKeyChange)
    (Q : Option α → List κ × List CommitPayload × Bool → Prop) (p : Ceremony α)
    (v : List κ × List CommitPayload × Bool) : Prop :=
  Does (reKeys cipher setting change) ReKeyRun.perform ReKeyRun.part Q p v

theorem changes_call {c : CeremonyCommand} {Q : Option c.Answer → List κ × List CommitPayload × Bool → Prop}
    {v : List κ × List CommitPayload × Bool}
    (hpermits : ∀ s, part s = v → Permits cipher setting change s c)
    (h : ∀ s found, part s = v → Lawful cipher setting s.state c found →
      Q (s.state.settle c found).2
        ((s.state.settle c found).1.keys, (s.state.settle c found).1.sent, s.rejected || (s.state.settle c found).2.isNone)) :
    Changes cipher setting change Q (call c) v := by
  refine does_await reKeys_stable fun seen s _ hs found t x hallowed hperform => ?_
  obtain ⟨rfl, rfl⟩ := Prod.mk.inj (Option.some.inj hperform)
  exact ⟨hpermits s hs, trivial, h s (found c) hs hallowed⟩

/-! ## Before the commit -/

/-- No command was rejected and nothing was sent, if the ceremony has returned. -/
def Prepared (Q : α → List κ → Prop) (ks : List κ) : Option α → List κ × List CommitPayload × Bool → Prop
  | some a, w => ks <+: w.1 ∧ w.2 = ([], false) ∧ Q a w.1
  | none, w => w.2.1 = []

/-- A part of a ceremony before the commit. -/
abbrev Prepares (cipher : AccountCipher κ) (setting : RecoverySetting) (change : MasterKeyChange) (Q : α → List κ → Prop)
    (p : Ceremony α) (ks : List κ) : Prop :=
  Changes cipher setting change (Prepared Q ks) p (ks, [], false)

/-- A handler that sends nothing. -/
def Sendless (cipher : AccountCipher κ) (setting : RecoverySetting) (change : MasterKeyChange) (handler : Ceremony PUnit) : Prop :=
  ∀ v : List κ × List CommitPayload × Bool, v.2.1 = [] → Changes cipher setting change (fun _ w => w.2.1 = []) handler v

variable {Q : α → List κ → Prop} {Q' : β → List κ → Prop} {p : Ceremony α} {ks : List κ}

theorem Prepares.mono {Q₂ : α → List κ → Prop} (h : Prepares cipher setting change Q p ks)
    (hQ : ∀ a ks', ks <+: ks' → Q a ks' → Q₂ a ks') : Prepares cipher setting change Q₂ p ks :=
  Does.mono h fun r w hw => match r, hw with
    | some a, ⟨hks, hw, ha⟩ => ⟨hks, hw, hQ a w.1 hks ha⟩
    | none, hw => hw

theorem Prepares.bind {f : α → Ceremony β} (h : Prepares cipher setting change Q p ks)
    (hf : ∀ a ks', ks <+: ks' → Q a ks' → Prepares cipher setting change Q' (f a) ks') :
    Prepares cipher setting change Q' (p.bind f) ks := by
  refine Does.bind h (fun a w hw => ?_) (fun w hw => hw)
  obtain ⟨ks', w⟩ := w
  obtain ⟨hks, rfl, ha⟩ : ks <+: ks' ∧ w = ([], false) ∧ Q a ks' := hw
  refine Does.mono (hf a ks' hks ha) fun r w hw => ?_
  cases r with
  | none => exact hw
  | some b => exact ⟨hks.trans hw.1, hw.2⟩

theorem prepares_ret {a : α} (ha : Q a ks) : Prepares cipher setting change Q (.ret a) ks :=
  does_ret reKeys_stable ⟨List.prefix_rfl, rfl, ha⟩

theorem prepares_throw : Prepares cipher setting change Q .throw ks := does_throw reKeys_stable rfl

theorem prepares_check {check' : Except String α} :
    Prepares cipher setting change (fun a _ => check' = .ok a) (check check') ks := by
  cases check' with
  | ok a => exact prepares_ret rfl
  | error e => exact prepares_throw

theorem prepares_parse {text : SealedText} :
    Prepares cipher setting change (fun data ks' => text = some data ∧ ks' = ks) (parseEncryptedData text) ks := by
  cases text with
  | some data => exact prepares_ret ⟨rfl, rfl⟩
  | none => exact prepares_throw

/-- A command that sends nothing. -/
theorem prepares_call {c : CeremonyCommand} {Q : c.Answer → List κ → Prop}
    (hc : c.isQuiet = true)
    (h : ∀ (s : CeremonyState κ) found x, s.keys = ks → Lawful cipher setting s c found → (s.settle c found).2 = some x →
      ks <+: (s.settle c found).1.keys ∧ Q x (s.settle c found).1.keys) :
    Prepares cipher setting change Q (call c) ks := by
  have hsent := settle_sent (κ := κ) (c := c) (by rintro payload rfl; cases hc)
  refine changes_call (fun s _ => permits_of_isQuiet hc s) fun s found hs hlawful => ?_
  obtain ⟨hkeys, hrest⟩ := Prod.mk.inj hs
  obtain ⟨hnone, hrejected⟩ := Prod.mk.inj hrest
  cases hx : (s.state.settle c found).2 with
  | none => exact (hsent _ _).trans hnone
  | some x =>
    obtain ⟨hks, hQ⟩ := h s.state found x hkeys hlawful hx
    exact ⟨hks, by simp [hsent, hnone, hrejected], hQ⟩

/-- A command that makes no key. -/
theorem prepares_sparing {c : CeremonyCommand} (hspares : c.sparesKeys = true) (hc : c.isQuiet = true) :
    Prepares cipher setting change (fun _ ks' => ks' = ks) (call c) ks :=
  prepares_call hc fun s found _ hks _ _ => by
    have hsame := (settle_spares (s := s) hspares found).1.trans hks
    exact ⟨hsame ▸ List.prefix_rfl, hsame⟩

theorem sendless_destroy {site : DestroyCall} {key : KeyRef} : Sendless cipher setting change (destroy site key) := by
  intro v hv
  refine Does.bind (Q := fun _ w => w.2.1 = []) ?_ (fun _ _ hw => does_ret reKeys_stable hw) (fun _ hw => hw)
  refine changes_call (fun _ _ => trivial) fun _ _ hs _ => ?_
  exact (congrArg (·.2.1) hs).trans hv

theorem Sendless.bind {handler handler' : Ceremony PUnit} (h : Sendless cipher setting change handler)
    (h' : Sendless cipher setting change handler') : Sendless cipher setting change (handler.bind fun _ => handler') :=
  fun v hv => Does.bind (h v hv) (fun _ w hw => h' w hw) fun _ hw => hw

theorem Prepares.onThrow {handler : Ceremony PUnit} (h : Prepares cipher setting change Q p ks)
    (hhandler : Sendless cipher setting change handler) : Prepares cipher setting change Q (p.onThrow handler) ks :=
  Does.onThrow reKeys_stable h (fun _ _ hw => hw) fun w hw => hhandler w hw

theorem prepares_destroy {site : DestroyCall} {key : KeyRef} :
    Prepares cipher setting change (fun _ ks' => ks' = ks) (destroy site key) ks :=
  Prepares.bind (prepares_call (Q := fun _ ks' => ks' = ks) rfl
    fun _ _ _ hks _ _ => ⟨hks ▸ List.prefix_rfl, hks⟩) fun _ _ _ hks => prepares_ret hks

theorem Prepares.always {site : DestroyCall} {key : KeyRef} (h : Prepares cipher setting change Q p ks) :
    Prepares cipher setting change Q (p.always (destroy site key)) ks :=
  (h.onThrow sendless_destroy).bind fun _ _ _ ha => prepares_destroy.bind fun _ _ _ hks => prepares_ret (hks ▸ ha)

/-! ## The keys of an account -/

theorem getElem?_of_isPrefix {ks ks' : List κ} {i : Nat} {key : κ} (h : ks <+: ks') (hi : ks[i]? = some key) :
    ks'[i]? = some key := by
  obtain ⟨rest, rfl⟩ := h
  rw [List.getElem?_append_left (List.getElem?_eq_some_iff.mp hi).1, hi]

theorem prepares_newKey {source : KeySource} {M : κ → Prop}
    (hM : ∀ (s : CeremonyState κ) key, s.keys = ks → Lawful cipher setting s (.newKey source) (some key) → M key) :
    Prepares cipher setting change (fun (key : KeyRef) ks' => ∃ material, ks'[key.id]? = some material ∧ M material)
      (call (.newKey source)) ks := by
  refine prepares_call rfl fun s found x hks hlawful hx => ?_
  cases found with
  | none => cases hx
  | some key =>
    obtain rfl := Option.some.inj hx
    refine ⟨hks ▸ List.prefix_append .., key, ?_, hM s key hks hlawful⟩
    exact List.getElem?_concat_length

theorem prepares_deriveKeys {masterKey : KeyRef} {email : String} {master : κ} (hmaster : ks[masterKey.id]? = some master) :
    Prepares cipher setting change
      (fun (derived : DerivedKeyRefs) ks' =>
        ks'[derived.masterUnlockKey.id]? = some (cipher.deriveKeysFromMasterKey master email).2)
      (call (.deriveKeysFromMasterKey masterKey email)) ks := by
  refine prepares_call rfl fun s found x hks hlawful hx => ?_
  cases found with
  | none => cases hx
  | some found =>
    obtain ⟨authKey, masterUnlockKey⟩ : κ × κ := found
    obtain ⟨master', hmaster', hderived⟩ := hlawful
    obtain rfl : master = master' := Option.some.inj ((hmaster.symm.trans (hks ▸ hmaster')))
    obtain rfl := Option.some.inj hx
    refine ⟨hks ▸ List.prefix_append .., ?_⟩
    rw [← hderived]
    simp [CeremonyState.settle]

theorem prepares_pinnedProfile {accountId : Option String} :
    Prepares cipher setting change (fun _ ks' => ks' = ks) (pinnedProfile accountId) ks := by
  unfold pinnedProfile
  split
  · exact prepares_sparing rfl rfl
  · exact prepares_ret rfl

theorem prepares_sealMasterKey {masterKey : KeyRef} {input : DeriveAccountKeysInput} :
    Prepares cipher setting change (fun _ ks' => ks' = ks) (sealMasterKey masterKey input) ks := by
  unfold sealMasterKey
  split
  · next recoveryKey _ =>
    exact (prepares_sparing (c := .encryptMasterKey masterKey recoveryKey input.email) rfl rfl).bind fun _ _ _ hks => prepares_ret hks
  · exact prepares_ret rfl

theorem prepares_finishDerivation {input : DeriveAccountKeysInput} {masterKey : KeyRef} {derivedKeys : DerivedKeyRefs} :
    Prepares cipher setting change (fun derived ks' => ks' = ks ∧ derived.masterUnlockKey = derivedKeys.masterUnlockKey)
      (finishDerivation input masterKey derivedKeys) ks := by
  have hsrp : Prepares cipher setting change (fun _ ks' => ks' = ks) (call (.deriveSrpPassword derivedKeys.authKey)) ks :=
    prepares_sparing rfl rfl
  refine hsrp.always.bind fun _ ks' _ hks => prepares_sealMasterKey.bind fun _ ks'' _ hks' => ?_
  exact prepares_ret ⟨hks'.trans hks, rfl⟩

/-- The unlock key is that of the password, the secret key, the email and the profile. -/
theorem prepares_deriveAccountKeys {input : DeriveAccountKeysInput} :
    Prepares cipher setting change
      (fun derived ks' => ks'[derived.masterUnlockKey.id]? =
        some (cipher.unlockKey input.accountPassword input.secretKey input.email input.profile))
      (deriveAccountKeys input) ks := by
  refine prepares_pinnedProfile.bind fun pinned ks₁ _ _ => prepares_check.bind fun _ ks₂ _ _ => ?_
  refine (prepares_newKey fun _ _ _ h => h).bind fun masterKey ks₃ _ hmaster => ?_
  obtain ⟨master, hlookup, rfl⟩ := hmaster
  refine ((prepares_deriveKeys hlookup).onThrow sendless_destroy).bind fun derivedKeys ks₄ _ hderived => ?_
  refine (prepares_finishDerivation.onThrow (sendless_destroy.bind sendless_destroy)).bind fun result ks₅ _ hresult => ?_
  obtain ⟨rfl, hkey⟩ := hresult
  refine prepares_destroy.bind fun _ ks₆ _ hks => prepares_ret ?_
  rw [hks, hkey]
  exact hderived

/-! ## Vault keys -/

/-- What the checks of an envelope's context come to. -/
theorem unwrapContext_ok {wrapped : WrappedVaultKey} {expectedVaultId expectedUserId : Option String}
    {context : EncryptionContext} (h : unwrapContext wrapped expectedVaultId expectedUserId = .ok context) :
    ∃ wrap keyVersion, wrapped.context = some wrap ∧ wrap.keyVersion = some keyVersion ∧ 1 ≤ keyVersion ∧
      (∀ vaultId ∈ given expectedVaultId, wrap.vaultId = vaultId) ∧ (∀ userId ∈ given expectedUserId, wrap.userId = userId) ∧
      context = buildVaultKeyEncryptionContext wrap.vaultId wrap.userId keyVersion.toNat := by
  unfold unwrapContext at h
  split at h
  · cases h
  · next wrap hwrap =>
    split at h
    · cases h
    · split at h
      · cases h
      · next keyVersion hversion =>
        split at h
        · cases h
        · next hpos =>
          split at h
          · cases h
          · next hvault =>
            split at h
            · cases h
            · next huser =>
              refine ⟨wrap, keyVersion, hwrap, hversion, by omega, ?_, ?_, (Except.ok.inj h).symm⟩
              · exact fun vaultId hmem => by_contra fun hne => hvault ⟨vaultId, hmem, hne⟩
              · exact fun userId hmem => by_contra fun hne => huser ⟨userId, hmem, hne⟩

theorem mem_given {text text' : String} (h : text' ∈ given (some text)) : text' = text := by
  unfold given at h
  split at h
  · cases h
  · exact (Option.some.inj h).symm

theorem given_of_ne {text : String} (h : text ≠ "") : text ∈ given (some text) := by
  unfold given
  split
  · next heq => exact absurd (Option.some.inj heq) h
  · rfl

theorem ownerWrapKeyVersion_ok {text : EncryptedVaultKey} {version : Nat} (h : ownerWrapKeyVersion text = .ok version) :
    ∃ wrapped wrap keyVersion, text = .envelope wrapped ∧ wrapped.context = some wrap ∧
      wrap.keyVersion = some keyVersion ∧ 1 ≤ keyVersion ∧ version = keyVersion.toNat := by
  unfold ownerWrapKeyVersion at h
  split at h
  · next data wrap =>
    split at h
    · next keyVersion hversion =>
      split at h
      · cases h
      · next hpos => exact ⟨_, wrap, keyVersion, rfl, rfl, hversion, by omega, (Except.ok.inj h).symm⟩
    · cases h
  · cases h
  · cases h

/-- An envelope that was sealed for a vault and a user opens for them. -/
theorem unwrapContext_sealed {data : EncryptedData} {vaultId userId : String} {version : Nat} (hpos : 1 ≤ version) :
    unwrapContext ⟨data, some ⟨vaultId, userId, some version, VAULT_KEY_WRAP_PURPOSE⟩⟩ (some vaultId) (some userId) =
      .ok (buildVaultKeyEncryptionContext vaultId userId version) := by
  have hvault : ¬ ∃ vaultId' ∈ given (some vaultId), vaultId ≠ vaultId' := fun ⟨_, hmem, hne⟩ => hne (mem_given hmem).symm
  have huser : ¬ ∃ userId' ∈ given (some userId), userId ≠ userId' := fun ⟨_, hmem, hne⟩ => hne (mem_given hmem).symm
  have hversion : ¬ (version : Int) < 1 := by omega
  simp only [unwrapContext, ne_eq, not_true_eq_false, if_false, if_neg hversion]
  rw [if_neg hvault, if_neg huser, Int.toNat_natCast]

theorem prepares_rewrapVaultKey {userId : String} {current next : KeyRef} {currentKey nextKey : κ}
    {entry : WrappedVaultKeyRecord} (howner : isOwnerWrappedVaultKey entry.encryptedVaultKey = true)
    (hcurrent : ks[current.id]? = some currentKey) (hnext : ks[next.id]? = some nextKey) :
    Prepares cipher setting change (fun record _ => cipher.Rewrapped userId currentKey nextKey entry record)
      (rewrapVaultKey userId current next entry) ks := by
  obtain ⟨vaultId, encryptedVaultKey⟩ := entry
  cases encryptedVaultKey with
  | other text => cases howner
  | envelope wrapped =>
    -- the old key is unwrapped under its own context
    have hunwrap : Prepares cipher setting change (fun (vaultKey : KeyRef) ks' =>
        ∃ key, ks'[vaultKey.id]? = some key ∧ ∃ context,
          unwrapContext wrapped (some vaultId) (some userId) = .ok context ∧
          cipher.unwrapKey wrapped.data currentKey context = some key)
        (unwrapVaultKey (.envelope wrapped) current none (some vaultId) (some userId)) ks := by
      refine prepares_check.bind fun context ks₁ hks₁ hcontext => ?_
      refine (prepares_newKey (M := fun key => cipher.unwrapKey wrapped.data currentKey context = some key)
        fun s key hks hlawful => ?_).mono fun vaultKey ks₂ _ hmade => ?_
      · obtain ⟨wrapping, hwrapping, hkey⟩ := hlawful
        rw [hks, getElem?_of_isPrefix hks₁ hcurrent] at hwrapping
        rwa [Option.some.inj hwrapping]
      · obtain ⟨key, hlookup, hkey⟩ := hmade
        exact ⟨key, hlookup, context, hcontext, hkey⟩
    refine hunwrap.bind fun vaultKey ks₁ hks₁ hkey => ?_
    obtain ⟨key, hlookup, context, hcontext, hkey⟩ := hkey
    obtain ⟨wrap, keyVersion, hwrap, hversion, hpos, hvault, huser, rfl⟩ := unwrapContext_ok hcontext
    -- and wrapped at the same version
    have hwrapped : Prepares cipher setting change (fun text _ => ∃ data,
        text = EncryptedVaultKey.envelope
          ⟨data, some ⟨vaultId, userId, some (keyVersion.toNat : Int), VAULT_KEY_WRAP_PURPOSE⟩⟩ ∧
        cipher.unwrapKey data nextKey (buildVaultKeyEncryptionContext vaultId userId keyVersion.toNat) = some key)
        ((check (ownerWrapKeyVersion (.envelope wrapped))).bind fun version =>
          wrapVaultKeyForOwner vaultKey next vaultId userId version) ks₁ := by
      refine prepares_check.bind fun version ks₂ hks₂ hok => ?_
      obtain ⟨wrapped', wrap', keyVersion', htext, hwrap', hversion', -, rfl⟩ := ownerWrapKeyVersion_ok hok
      obtain rfl : wrapped = wrapped' := EncryptedVaultKey.envelope.inj htext
      obtain rfl : wrap = wrap' := Option.some.inj (hwrap.symm.trans hwrap')
      obtain rfl : keyVersion = keyVersion' := Option.some.inj (hversion.symm.trans hversion')
      refine prepares_call rfl fun s found text hks hlawful hx => ?_
      have hfound : found = some text := hx
      subst hfound
      obtain ⟨key', unlock, data, hkey', hunlock, htext, hopens⟩ := hlawful
      rw [hks] at hkey' hunlock
      obtain rfl : key = key' := Option.some.inj ((getElem?_of_isPrefix hks₂ hlookup).symm.trans hkey')
      obtain rfl : nextKey = unlock :=
        Option.some.inj ((getElem?_of_isPrefix (hks₁.trans hks₂) hnext).symm.trans hunlock)
      exact ⟨hks ▸ List.prefix_rfl, data, htext, hopens⟩
    refine hwrapped.always.bind fun text ks₂ _ htext => prepares_ret ?_
    obtain ⟨data, rfl, hopens⟩ := htext
    refine ⟨rfl, buildVaultKeyEncryptionContext wrap.vaultId wrap.userId keyVersion.toNat, key, ?_, ?_, fun hne => ?_,
      fun hne => ?_⟩
    · simp only [AccountCipher.opens, hcontext, hkey, Option.map_some]
    · simp only [AccountCipher.opens, unwrapContext_sealed (show 1 ≤ keyVersion.toNat by omega), hopens, Option.map_some]
      rfl
    · exact hvault _ (given_of_ne hne)
    · exact huser _ (given_of_ne hne)

/-- The loop over the vault keys, by induction on them. -/
theorem prepares_rewrapVaultKeys {userId : String} {current next : KeyRef} {currentKey nextKey : κ}
    {entries : List WrappedVaultKeyRecord} (hcurrent : ks[current.id]? = some currentKey)
    (hnext : ks[next.id]? = some nextKey) :
    Prepares cipher setting change (fun sent _ =>
      List.Forall₂ (cipher.Rewrapped userId currentKey nextKey)
        (entries.filter fun entry => isOwnerWrappedVaultKey entry.encryptedVaultKey) sent.1 ∧
      List.Forall₂ (MasterKeyChange.Replaces cipher userId currentKey nextKey) entries sent.2)
      (rewrapVaultKeys userId current next entries) ks := by
  induction entries generalizing ks with
  | nil => exact prepares_ret ⟨.nil, .nil⟩
  | cons entry rest ih =>
    unfold rewrapVaultKeys
    split
    · next howner =>
      refine (prepares_rewrapVaultKey howner hcurrent hnext).bind fun record ks₁ hks₁ hrecord => ?_
      refine (ih (getElem?_of_isPrefix hks₁ hcurrent) (getElem?_of_isPrefix hks₁ hnext)).bind fun sent ks₂ _ hsent => ?_
      refine prepares_ret ⟨?_, .cons ?_ hsent.2⟩
      · rw [List.filter_cons, if_pos howner]
        exact .cons hrecord hsent.1
      · rw [MasterKeyChange.Replaces, if_pos howner]
        exact hrecord
    · next howner =>
      refine (ih hcurrent hnext).bind fun sent ks₁ _ hsent => ?_
      refine prepares_ret ⟨?_, .cons ?_ hsent.2⟩
      · rw [List.filter_cons, if_neg howner]
        exact hsent.1
      · rw [MasterKeyChange.Replaces, if_neg howner]

/-! ## The ceremonies up to the commit -/

theorem prepares_decryptPrivateKey {text : SealedText} {key : KeyRef} :
    Prepares cipher setting change (fun _ ks' => ks' = ks) (decryptPrivateKey text key) ks :=
  prepares_parse.bind fun _ _ _ hparsed => hparsed.2 ▸ prepares_sparing rfl rfl

theorem prepares_reKeyUnder {input : ReKeyInput} {privateKeyPem : String} {current : KeyRef} {next : DerivedAccountKeys}
    {currentKey nextKey : κ} (hcurrent : ks[current.id]? = some currentKey)
    (hnext : ks[next.masterUnlockKey.id]? = some nextKey) :
    Prepares cipher setting change (fun reKeyed _ =>
      List.Forall₂ (cipher.Rewrapped input.userId currentKey nextKey)
        (input.vaultKeys.filter fun entry => isOwnerWrappedVaultKey entry.encryptedVaultKey)
        reKeyed.payload.encryptedVaultKeys ∧
      List.Forall₂ (MasterKeyChange.Replaces cipher input.userId currentKey nextKey) input.vaultKeys reKeyed.vaultKeys)
      (reKeyUnder input privateKeyPem current next) ks := by
  refine (prepares_sparing rfl rfl).bind fun registration ks₁ _ hks => ?_
  refine (prepares_sparing rfl rfl).bind fun encryptedPrivateKey ks₂ _ hks' => ?_
  obtain rfl : ks₂ = ks := hks'.trans hks
  exact (prepares_rewrapVaultKeys hcurrent hnext).bind fun sent ks₃ _ hsent => prepares_ret hsent

theorem prepares_reKeyAccount {input : ReKeyInput} :
    Prepares cipher setting change (fun reKeyed _ => ∃ current,
      (∃ profile, current = cipher.unlockKey input.currentPassword input.currentSecretKey input.currentEmail profile) ∧
      List.Forall₂ (cipher.Rewrapped input.userId current
        (cipher.unlockKey input.nextPassword input.nextSecretKey input.nextEmail currentKdfProfile))
        (input.vaultKeys.filter fun entry => isOwnerWrappedVaultKey entry.encryptedVaultKey)
        reKeyed.payload.encryptedVaultKeys ∧
      List.Forall₂ (MasterKeyChange.Replaces cipher input.userId current
        (cipher.unlockKey input.nextPassword input.nextSecretKey input.nextEmail currentKdfProfile))
        input.vaultKeys reKeyed.vaultKeys)
      (reKeyAccount input) ks := by
  refine (prepares_sparing rfl rfl).bind fun found ks₁ _ _ => ?_
  cases found with
  | none => exact prepares_throw
  | some profile =>
    refine prepares_deriveAccountKeys.bind fun current ks₂ _ hcurrent => ?_
    refine Prepares.always ?_
    refine prepares_decryptPrivateKey.bind fun privateKeyPem ks₃ hks₃ _ => prepares_check.bind fun _ ks₄ hks₄ _ => ?_
    refine prepares_deriveAccountKeys.bind fun next ks₅ hks₅ hnext => ?_
    refine Prepares.onThrow ?_ sendless_destroy
    refine (prepares_reKeyUnder (getElem?_of_isPrefix (hks₃.trans (hks₄.trans hks₅)) hcurrent) hnext).mono
      fun reKeyed _ _ h => ?_
    exact ⟨_, ⟨profile, rfl⟩, h⟩

/-- The three ceremonies on the password, the email and the secret key. -/
theorem prepares_reKey {input : ReKeyInput} (hinput : change.reKey = some input) :
    Prepares cipher setting change (fun reKeyed _ => change.Covers cipher setting reKeyed.payload.encryptedVaultKeys ∧
      change.KeepsAll cipher setting reKeyed.vaultKeys) (reKeyAccount input) ks := by
  refine prepares_reKeyAccount.mono fun reKeyed _ _ h => ?_
  obtain ⟨current, hcurrent, hcovers, hkeeps⟩ := h
  cases change with
  | password input' =>
    obtain rfl := Option.some.inj hinput
    exact ⟨⟨current, hcurrent, hcovers⟩, current, hcurrent, hkeeps⟩
  | email normalizeEmail input' =>
    obtain rfl := Option.some.inj hinput
    exact ⟨⟨current, hcurrent, hcovers⟩, current, hcurrent, hkeeps⟩
  | secretKey input' =>
    obtain rfl := Option.some.inj hinput
    exact ⟨⟨current, hcurrent, hcovers⟩, current, hcurrent, hkeeps⟩
  | recovery input' => cases hinput

/-! ## The commit -/

/-- Either the ceremony has been rejected and nothing was sent, or one payload was, and what it returned
meets `P`. -/
def Committed (cipher : AccountCipher κ) (setting : RecoverySetting) (change : MasterKeyChange) (P : α → Prop)
    (r : Option α) (w : List κ × List CommitPayload × Bool) : Prop :=
  r = none ∧ w.2.1 = [] ∨
    ∃ payload, w.2.1 = [payload] ∧ change.Covers cipher setting payload.encryptedVaultKeys ∧ ∀ a ∈ r, P a

theorem changes_commit {payload : CommitPayload} (hcovers : change.Covers cipher setting payload.encryptedVaultKeys) :
    Changes cipher setting change (fun _ w => w.2.1 = [payload]) (call (.commit payload)) (ks, [], false) := by
  refine changes_call (fun s hs => ?_) fun s found hs _ => ?_
  · obtain ⟨-, hrest⟩ := Prod.mk.inj hs
    obtain ⟨hsent, hrejected⟩ := Prod.mk.inj hrest
    exact ⟨hrejected, hsent, hcovers⟩
  · exact congrArg (payload :: ·) (congrArg (·.2.1) hs)

/-- A command that leaves what was sent as it is. -/
def SendsNothing (cipher : AccountCipher κ) (setting : RecoverySetting) (change : MasterKeyChange) (c : CeremonyCommand) : Prop :=
  (∀ payload, c ≠ .commit payload) ∧ ∀ s, Permits cipher setting change s c

theorem changes_of_uses {sent : List CommitPayload} {v : List κ × List CommitPayload × Bool}
    (hp : p.Uses (SendsNothing cipher setting change)) (hv : v.2.1 = sent) :
    Changes cipher setting change (fun _ w => w.2.1 = sent) p v := by
  intro seen s _ hs
  refine safe_of_uses (A := fun s : ReKeyRun κ => s.state.sent = sent) hp (fun s t _ hrely hA => ?_)
    (fun seen s c found t x hc _ hA _ hperform => ?_) ((congrArg (·.2.1) hs).trans hv)
  · obtain rfl : s = t := hrely
    exact hA
  · obtain ⟨rfl, rfl⟩ := Prod.mk.inj (Option.some.inj hperform)
    exact ⟨hc.2 s, trivial, (settle_sent hc.1 _ _).trans hA⟩

theorem sendsNothing_of_isQuiet {c : CeremonyCommand} (hc : c.isQuiet = true) : SendsNothing cipher setting change c :=
  ⟨(by rintro payload rfl; cases hc), permits_of_isQuiet hc⟩

theorem uses_quiet {c : CeremonyCommand} (hc : c.isQuiet = true) : (call c).Uses (SendsNothing cipher setting change) :=
  Async.uses_await (sendsNothing_of_isQuiet hc)

theorem uses_destroy {site : DestroyCall} {key : KeyRef} : (destroy site key).Uses (SendsNothing cipher setting change) :=
  (uses_quiet rfl).bind fun _ => trivial

/-- What comes before the commit, and the rest. -/
theorem Prepares.thenChanges {f : α → Ceremony β} {R : Option β → List κ × List CommitPayload × Bool → Prop}
    (h : Prepares cipher setting change Q p ks) (hf : ∀ a ks', ks <+: ks' → Q a ks' → Changes cipher setting change R (f a) (ks', [], false))
    (hnone : ∀ w, w.2.1 = [] → R none w) : Changes cipher setting change R (p.bind f) (ks, [], false) := by
  refine Does.bind h (fun a w hw => ?_) hnone
  obtain ⟨ks', w⟩ := w
  obtain ⟨hks, rfl, ha⟩ : ks <+: ks' ∧ w = ([], false) ∧ Q a ks' := hw
  exact hf a ks' hks ha

/-- A commit, and a rest that sends nothing. -/
theorem committed_bind {payload : CommitPayload} {v : List κ × List CommitPayload × Bool} {rest : α → Ceremony β}
    {P : β → Prop} (hp : Changes cipher setting change (fun _ w => w.2.1 = [payload]) p v)
    (hcovers : change.Covers cipher setting payload.encryptedVaultKeys)
    (hrest : ∀ a, (rest a).Uses (SendsNothing cipher setting change)) (hends : ∀ a, (rest a).Ends P) :
    Changes cipher setting change (Committed cipher setting change P) (p.bind rest) v :=
  Does.bind hp
    (fun a _ hw => Does.mono ((changes_of_uses (hrest a) hw).ends (hends a)) fun _ _ hw' =>
      .inr ⟨payload, hw'.1, hcovers, hw'.2⟩)
    fun _ hw => .inr ⟨payload, hw, hcovers, nofun⟩

/-- A handler that destroys a key sends nothing, however the ceremony has ended. -/
theorem committed_destroy {site : DestroyCall} {key : KeyRef} {P : α → Prop} {r : Option α}
    {w : List κ × List CommitPayload × Bool} (hw : Committed cipher setting change P r w) :
    Changes cipher setting change (fun done w => Committed cipher setting change P (done.bind fun _ => r) w)
      (destroy site key) w := by
  rcases hw with ⟨rfl, hnone⟩ | ⟨payload, hpayload, hcovers, hr⟩
  · exact Does.mono (changes_of_uses uses_destroy hnone) fun done _ hw => .inl ⟨by cases done <;> rfl, hw⟩
  · refine Does.mono (changes_of_uses uses_destroy hpayload) fun done _ hw => .inr ⟨payload, hw, hcovers, ?_⟩
    cases done with
    | none => exact nofun
    | some done => exact hr

theorem committed_onThrow {site : DestroyCall} {key : KeyRef} {P : α → Prop} {v : List κ × List CommitPayload × Bool}
    (h : Changes cipher setting change (Committed cipher setting change P) p v) :
    Changes cipher setting change (Committed cipher setting change P) (p.onThrow (destroy site key)) v :=
  Does.onThrow reKeys_stable h (fun _ _ hw => hw) fun _ hw =>
    Does.mono (committed_destroy hw) fun done _ hw => by cases done <;> exact hw

theorem committed_finally {site : DestroyCall} {key : KeyRef} {P : α → Prop} {v : List κ × List CommitPayload × Bool}
    (h : Changes cipher setting change (Committed cipher setting change P) p v) :
    Changes cipher setting change (Committed cipher setting change P) (p.always (destroy site key)) v :=
  Does.always reKeys_stable h
    (fun _ _ hw => Does.mono (committed_destroy hw) fun done _ hw => by cases done <;> exact hw)
    fun _ hw => Does.mono (committed_destroy hw) fun done _ hw => by cases done <;> exact hw

/-! ## Each ceremony -/

theorem uses_adoptSecretKey {input : RegenerateSecretKeyInput} {reKeyed : ReKeyedAccount}
    (hkeeps : change.KeepsAll cipher setting reKeyed.vaultKeys) :
    (adoptSecretKey input reKeyed).Uses (SendsNothing cipher setting change) := by
  refine (uses_quiet rfl).bind fun _ => (uses_quiet rfl).bind fun _ => (uses_quiet rfl).bind fun _ => ?_
  refine Async.Uses.bind (Async.uses_await ⟨nofun, fun _ => hkeeps⟩) fun _ => ?_
  exact (uses_quiet rfl).bind fun _ => (uses_quiet rfl).bind fun _ => (uses_quiet rfl)

theorem committed_recoverUnder {input : RecoverAccountInput} {privateKeyPem : String} {old : KeyRef}
    {next : DerivedAccountKeys} {current : κ} (hchange : change = .recovery input)
    (hcurrent : change.IsCurrentKey cipher setting current) (hold : ks[old.id]? = some current)
    (hnext : ks[next.masterUnlockKey.id]? = some (change.nextKey cipher setting)) :
    Changes cipher setting change (Committed cipher setting change fun recovered => recovered.secretKey = setting.secretKey)
      (recoverUnder input setting.data privateKeyPem setting.secretKey old next) (ks, [], false) := by
  subst hchange
  have hnone : ∀ w : List κ × List CommitPayload × Bool, w.2.1 = [] →
      Committed (α := RecoveredAccount) cipher setting (.recovery input) (·.secretKey = setting.secretKey) none w := fun _ hw => .inl ⟨rfl, hw⟩
  refine Prepares.thenChanges prepares_parse (fun encryptedMasterKey ks₁ _ hparsed => ?_) hnone
  refine Prepares.thenChanges (prepares_sparing rfl rfl) (fun registration ks₂ _ hks => ?_) hnone
  refine Prepares.thenChanges (prepares_sparing rfl rfl) (fun encryptedPrivateKey ks₃ _ hks' => ?_) hnone
  obtain rfl : ks₃ = ks := hks'.trans (hks.trans hparsed.2)
  refine Prepares.thenChanges (prepares_rewrapVaultKeys hold hnext) (fun sent ks₄ _ hsent => ?_) hnone
  have hcovers : (MasterKeyChange.recovery input).Covers cipher setting sent.1 := ⟨current, hcurrent, hsent.1⟩
  exact committed_bind (changes_commit hcovers) hcovers (fun _ => trivial) fun _ => rfl

theorem committed_recoverAccount {input : RecoverAccountInput} (hchange : change = .recovery input) :
    Changes cipher setting change (Committed cipher setting change fun recovered => recovered.secretKey = setting.secretKey)
      (recoverAccount input) (ks, [], false) := by
  subst hchange
  have hnone : ∀ w : List κ × List CommitPayload × Bool, w.2.1 = [] →
      Committed (α := RecoveredAccount) cipher setting (.recovery input) (·.secretKey = setting.secretKey) none w := fun _ hw => .inl ⟨rfl, hw⟩
  refine Prepares.thenChanges (prepares_sparing rfl rfl) (fun (valid : Bool) ks₁ _ _ => ?_) hnone
  cases valid with
  | false => exact does_throw reKeys_stable (.inl ⟨rfl, rfl⟩)
  | true =>
    have hload : Prepares cipher setting (.recovery input) (fun data _ => data = setting.data) (call .loadRecoveryData) ks₁ :=
      prepares_call rfl fun s found x hks hlawful hx => by
        obtain rfl : found = some x := hx
        exact ⟨hks ▸ List.prefix_rfl, hlawful⟩
    refine Prepares.thenChanges hload (fun recoveryData ks₂ _ hdata => ?_) hnone
    subst hdata
    refine Prepares.thenChanges prepares_parse (fun encryptedMasterKey ks₃ _ hparsed => ?_) hnone
    refine Prepares.thenChanges (prepares_newKey fun _ _ _ h => h) (fun oldMasterKey ks₄ _ hmaster => ?_) hnone
    obtain ⟨master, hlookup, hdecrypted⟩ := hmaster
    refine Prepares.thenChanges (prepares_deriveKeys hlookup).always (fun oldKeys ks₅ _ hold => ?_) hnone
    have hcurrent : (MasterKeyChange.recovery input).IsCurrentKey cipher setting
        (cipher.deriveKeysFromMasterKey master input.email).2 := ⟨encryptedMasterKey, hparsed.1, master, hdecrypted, rfl⟩
    refine committed_finally ?_
    refine Prepares.thenChanges prepares_destroy (fun _ ks₆ hks₆ _ => ?_) hnone
    refine Prepares.thenChanges prepares_decryptPrivateKey (fun privateKeyPem ks₇ hks₇ _ => ?_) hnone
    have hgenerate : Prepares cipher setting (.recovery input) (fun secretKey _ => secretKey = setting.secretKey)
        (call .generateSecretKey) ks₇ :=
      prepares_call rfl fun s found x hks hlawful hx => by
        obtain rfl : found = some x := hx
        exact ⟨hks ▸ List.prefix_rfl, hlawful⟩
    refine Prepares.thenChanges hgenerate (fun secretKey ks₈ hks₈ hsecret => ?_) hnone
    subst hsecret
    refine Prepares.thenChanges prepares_check (fun _ ks₉ hks₉ _ => ?_) hnone
    refine Prepares.thenChanges prepares_deriveAccountKeys (fun next ks' hks' hnext => ?_) hnone
    have hold' := getElem?_of_isPrefix (hks₆.trans (hks₇.trans (hks₈.trans (hks₉.trans hks')))) hold
    exact committed_onThrow (committed_recoverUnder rfl hcurrent hold' hnext)

/-- A result that is read off. -/
theorem committed_result {f : α → β} {P : α → Prop} {P' : β → Prop} {v : List κ × List CommitPayload × Bool}
    (h : Changes cipher setting change (Committed cipher setting change P) p v) (hf : ∀ a, P a → P' (f a)) :
    Changes cipher setting change (Committed cipher setting change P') (p.bind fun a => .ret (f a)) v := by
  refine Does.bind h (fun a w hw => does_ret reKeys_stable ?_) fun w hw => ?_
  · rcases hw with ⟨hthrown, -⟩ | ⟨payload, hw, hcovers, hr⟩
    · cases hthrown
    · exact .inr ⟨payload, hw, hcovers, fun b hb => Option.some.inj hb ▸ hf a (hr a rfl)⟩
  · rcases hw with ⟨-, hw⟩ | ⟨payload, hw, hcovers, -⟩
    · exact .inl ⟨rfl, hw⟩
    · exact .inr ⟨payload, hw, hcovers, nofun⟩

/-- The commit of a re-key, after which the new unlock key is destroyed. -/
theorem changes_commitAlways {payload : CommitPayload} {key : KeyRef}
    (hcovers : change.Covers cipher setting payload.encryptedVaultKeys) :
    Changes cipher setting change (fun _ w => w.2.1 = [payload])
      ((call (.commit payload)).always (destroy .committedUnlockKey key)) (ks, [], false) :=
  Does.always reKeys_stable (changes_commit hcovers) (fun _ _ hw => changes_of_uses uses_destroy hw)
    fun _ hw => changes_of_uses uses_destroy hw

/-- The commit of a re-key, after which the new unlock key is destroyed if it was rejected. -/
theorem changes_commitOnThrow {payload : CommitPayload} {key : KeyRef}
    (hcovers : change.Covers cipher setting payload.encryptedVaultKeys) :
    Changes cipher setting change (fun _ w => w.2.1 = [payload])
      ((call (.commit payload)).onThrow (destroy .committedUnlockKey key)) (ks, [], false) :=
  Does.onThrow reKeys_stable (changes_commit hcovers) (fun _ _ hw => hw) fun _ hw => changes_of_uses uses_destroy hw

theorem committed_run : Changes cipher setting change
    (Committed cipher setting change fun secretKey => secretKey = change.newSecretKey setting) change.run (ks, [], false) := by
  have hnone : ∀ {γ : Type} (w : List κ × List CommitPayload × Bool), w.2.1 = [] →
      Committed (α := γ) cipher setting change (fun _ => True) none w := fun _ hw => .inl ⟨rfl, hw⟩
  cases change with
  | password input =>
    refine committed_result (Prepares.thenChanges (prepares_reKey rfl) (fun reKeyed ks₁ _ hreKeyed => ?_) hnone)
      fun _ _ => rfl
    exact committed_bind (changes_commitAlways hreKeyed.1) hreKeyed.1 (fun _ => (uses_quiet rfl).bind fun _ => trivial)
      fun _ => Async.ends_of_all (fun _ => trivial) _
  | email normalizeEmail input =>
    refine committed_result (Prepares.thenChanges (prepares_reKey rfl) (fun reKeyed ks₁ _ hreKeyed => ?_) hnone)
      fun _ _ => rfl
    exact committed_bind (changes_commitAlways hreKeyed.1) hreKeyed.1 (fun _ => (uses_quiet rfl).bind fun _ => trivial)
      fun _ => Async.ends_of_all (fun _ => trivial) _
  | secretKey input =>
    refine committed_result (Prepares.thenChanges (prepares_reKey rfl) (fun reKeyed ks₁ _ hreKeyed => ?_) hnone)
      fun _ _ => rfl
    refine committed_bind (changes_commitOnThrow hreKeyed.1) hreKeyed.1 (fun _ => ?_) fun _ => Async.ends_of_all (fun _ => trivial) _
    refine Async.Uses.bind (uses_adoptSecretKey hreKeyed.2 |>.orElse ?_) fun _ => trivial
    exact Async.Uses.bind uses_destroy fun _ => trivial
  | recovery input => exact committed_result (committed_recoverAccount rfl) fun _ hr => hr

/-- **No vault key is lost.** A change of the master key commits at most once, after no command was
rejected, and once when it succeeds. What it commits are the owner-wrapped vault keys, each of which
opens under the new unlock key to the vault key it held, for the same vault, user and key version; the
whole set that it stores has all other entries as they were. -/
theorem MasterKeyChange.vault_keys_kept {r : Option String}
    {moments : List (Moment (ReKeyRun κ) CeremonyCommand CeremonyCommand.Answer)} {s : ReKeyRun κ}
    (hrun : Plays (reKeys cipher setting change) ReKeyRun.perform change.run [] ReKeyRun.initial r moments s) :
    s.state.sent.length ≤ 1 ∧
    (∀ payload ∈ s.state.sent, change.Covers cipher setting payload.encryptedVaultKeys) ∧
    (∀ secretKey ∈ r, secretKey = change.newSecretKey setting ∧ s.state.sent ≠ []) ∧
    ∀ m ∈ moments, Permits cipher setting change m.state m.command := by
  obtain ⟨hcommitted, -, hmoments⟩ :=
    (committed_run [] ReKeyRun.initial trivial rfl).plays trivial hrun
  have hpermits : ∀ m ∈ moments, Permits cipher setting change m.state m.command := fun m hm =>
    (hmoments m hm).elim nofun fun ⟨_, _, hguar⟩ => hguar
  rcases hcommitted with ⟨rfl, hsent⟩ | ⟨payload, hsent, hcovers, hr⟩
  · have hsent : s.state.sent = [] := hsent
    rw [hsent]
    exact ⟨Nat.zero_le 1, nofun, nofun, hpermits⟩
  · have hsent : s.state.sent = [payload] := hsent
    rw [hsent]
    refine ⟨Nat.le_refl 1, fun payload' hmem => ?_, fun secretKey hkey => ⟨hr secretKey hkey, nofun⟩, hpermits⟩
    rwa [List.mem_singleton.mp hmem]

end

/-! ## A core that answers -/

/-- A core that joins texts, whose sealed data show the key they are sealed with. -/
def joiningCipher : AccountCipher String where
  deriveMasterKey accountPassword secretKey email _ := accountPassword ++ secretKey ++ email
  deriveKeysFromMasterKey masterKey _ := (masterKey ++ "/auth", masterKey ++ "/unlock")
  decryptMasterKey _ _ _ := none
  unwrapKey data wrappingKey _ := if data.iv = wrappingKey then some data.ciphertext else none

/-- What a core that works finds, given the keys that the handles stand for. -/
def ReKeyRun.answers (s : ReKeyRun String) : Finds String
  | .newKey (.deriveMasterKey accountPassword secretKey email profile) =>
    some (joiningCipher.deriveMasterKey accountPassword secretKey email profile)
  | .newKey (.unwrapKey data wrappingKey context) =>
    s.state.keys[wrappingKey.id]?.bind fun wrapping => joiningCipher.unwrapKey data wrapping context
  | .deriveKeysFromMasterKey masterKey email =>
    s.state.keys[masterKey.id]?.map fun master => joiningCipher.deriveKeysFromMasterKey master email
  | .encryptVaultKeyWithMuk vaultKey masterUnlockKey vaultId userId keyVersion =>
    s.state.keys[vaultKey.id]?.bind fun key => s.state.keys[masterUnlockKey.id]?.map fun unlock =>
      EncryptedVaultKey.envelope ⟨⟨key, unlock, "aes"⟩, some ⟨vaultId, userId, some keyVersion, VAULT_KEY_WRAP_PURPOSE⟩⟩
  | .deriveSrpPassword _ => some "srp"
  | .destroyKey _ _ => some ()
  | .encrypt plaintext _ => some ⟨plaintext, "iv", "aes"⟩
  | .decrypt _ _ => some "private key"
  | .generateSrpRegistration _ => some ⟨"salt", "verifier"⟩
  | .getPinnedKdfProfile _ => some (some currentKdfProfile)
  | .storePinnedKdfProfile _ _ => some ()
  | .commit _ => some ()
  | _ => none

theorem ReKeyRun.answers_lawful (setting : RecoverySetting) (s : ReKeyRun String) (c : CeremonyCommand) :
    Lawful joiningCipher setting s.state c (s.answers c) := by
  cases hfound : s.answers c with
  | none => cases c <;> first | trivial | (rename_i source; cases source <;> trivial)
  | some found =>
    cases c with
    | newKey source =>
      cases source with
      | deriveMasterKey accountPassword secretKey email profile => exact (Option.some.inj hfound).symm
      | unwrapKey data wrappingKey context => exact Option.bind_eq_some_iff.mp hfound
      | _ => trivial
    | deriveKeysFromMasterKey masterKey email =>
      obtain ⟨master, hmaster, hkeys⟩ := Option.map_eq_some_iff.mp hfound
      exact ⟨master, hmaster, hkeys.symm⟩
    | encryptVaultKeyWithMuk vaultKey masterUnlockKey vaultId userId keyVersion =>
      obtain ⟨key, hkey, hrest⟩ := Option.bind_eq_some_iff.mp hfound
      obtain ⟨unlock, hunlock, htext⟩ := Option.map_eq_some_iff.mp hrest
      exact ⟨key, unlock, _, hkey, hunlock, htext.symm, if_pos rfl⟩
    | generateSecretKey | loadRecoveryData => cases hfound
    | _ => trivial

/-- A password is changed: of the two vault keys one is the account's own. -/
def rekeyedExample : MasterKeyChange := .password {
  accountId := "account"
  email := "a@example.com"
  userId := "u"
  currentPassword := "old "
  newPassword := "new "
  secretKey := "secret "
  encryptedPrivateKey := some ⟨"private key", "iv", "aes"⟩
  vaultKeys := [
    ⟨"v", .envelope ⟨⟨"vault key", "old secret a@example.com/unlock", "aes"⟩, some ⟨"v", "u", some 3, VAULT_KEY_WRAP_PURPOSE⟩⟩⟩,
    ⟨"w", .other "sealed to the public key"⟩] }

/-- No recovery: nothing is asked of the server, and no secret key is generated. -/
def noRecovery : RecoverySetting := ⟨⟨"u", none, none, []⟩, ""⟩

theorem MasterKeyChange.vault_keys_kept_example :
    ∃ moments s, Plays (ReKeyRun.reKeys joiningCipher noRecovery rekeyedExample) ReKeyRun.perform rekeyedExample.run []
        ReKeyRun.initial (some "secret ") moments s ∧
      s.state.sent.length = 1 ∧
      ∀ payload ∈ s.state.sent, rekeyedExample.Covers joiningCipher noRecovery payload.encryptedVaultKeys := by
  have hplayed : (rekeyedExample.run.play ReKeyRun.perform ReKeyRun.answers [] ReKeyRun.initial).any
      (fun (r, _, s) => r = some "secret " ∧ s.state.sent.length = 1) = true := by
    decide +kernel
  rw [Option.any_eq_true] at hplayed
  obtain ⟨⟨r, moments, s⟩, hplay, hend⟩ := hplayed
  obtain ⟨rfl, hlength⟩ := of_decide_eq_true hend
  have hrun : Plays (ReKeyRun.reKeys joiningCipher noRecovery rekeyedExample) ReKeyRun.perform rekeyedExample.run []
      ReKeyRun.initial (some "secret ") moments s :=
    plays_play (fun _ s c => ReKeyRun.answers_lawful noRecovery s c) hplay
  exact ⟨moments, s, hrun, hlength, (MasterKeyChange.vault_keys_kept hrun).2.1⟩

end Bittery
