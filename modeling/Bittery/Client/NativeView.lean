/-
The native view of the account store: what it is the projection of, and when it is.

Each operation that changes what the view shows, or the view, writes the view anew from what
it reads. When no two of these overlap, the view is the projection whenever none is under way
and none has been rejected.
-/
import Bittery.Client.AccountStoreFacts

namespace Bittery

open Lib

/-! ## The projection -/

/-- What the native view shows, and the view. -/
@[ext]
structure ViewPart where
  accountsList : Option AccountsListDocument
  activeAccount : Option String
  autoLockTimeout : String → Option Int
  biometricEnabled : String → Option Bool
  unlocked : List String
  nativeView : Option NativeHostView
  initialized : Bool

namespace ViewPart

def project (v : ViewPart) (unlocked : List String) : NativeHostView where
  activeAccountId := v.activeAccount
  unlockedAccountIds := unlocked
  autoLockTimeoutMs := (v.activeAccount.bind v.autoLockTimeout).getD DEFAULT_AUTO_LOCK_TIMEOUT_MS
  accounts := (AccountsListDocument.parse v.accountsList).map fun account =>
    NativeAccount.of account ((v.biometricEnabled account.accountId).getD false)

/-- The view shows what there is. -/
def Fresh (v : ViewPart) : Prop := v.nativeView = some (v.project v.unlocked)

end ViewPart

def AccountStore.viewPart (s : AccountStore) : ViewPart where
  accountsList := s.values (.global .accountsList)
  activeAccount := s.values (.global .activeAccount)
  autoLockTimeout a := s.values (.account a .autoLockTimeout)
  biometricEnabled a := s.values (.account a .biometricEnabled)
  unlocked := s.mukCache.map (·.accountId)
  nativeView := s.values (.global .nativeView)
  initialized := s.initialized

def ValueName.isShown : ValueName → Bool
  | .global .accountsList | .global .activeAccount | .global .nativeView | .account _ .autoLockTimeout
  | .account _ .biometricEnabled => true
  | _ => false

/-- A command that changes nothing of the view, nor of what it shows. -/
def Command.keepsView : Command → Prop
  | .set name _ | .delete name => name.isShown = false
  | .setEntry _ _ | .nextEntry _ => False
  | _ => True

/-- Whether an operation changes the view, or what it shows. -/
def StoreOp.changesView : StoreOp → Bool
  | .storeSessionData _ _ _ | .updateStoredSessionMetadata _ _ | .storeSecretKey _ _ | .storeAuthToken _ _
  | .storeVaultKeys _ _ | .storeEncryptedPrivateKey _ _ | .storePinnedKdfProfile _ _ | .storeServerUrl _ _
  | .storeTravelModeCache _ _ | .storeBackgroundTimestamp _ _ | .clearBackgroundTimestamp _
  | .storeMasterPasswordReentryPeriodMs _ | .updateLastMasterPasswordEntry _ | .authenticateWithBiometric _
  | .authenticateWithBiometricEnhanced _ => false
  | _ => true

/-- The view is one resource. -/
def viewResources (normalizeAccountServerUrl : String → String) : Resources (accountStore normalizeAccountServerUrl) Unit where
  inv _ := True
  base s t := s.rejected = true → t.rejected = true
  base_refl _ := id
  base_trans _ _ _ h h' := h' ∘ h
  same _ s t := s.viewPart = t.viewPart
  same_refl _ _ := rfl
  same_trans _ _ _ _ h h' := h.trans h'
  free _ s := s.rejected = false → s.initialized = true → s.viewPart.Fresh
  free_same _ s t hbase hsame hfree := by
    intro hrejected hinitialized
    have hinit : s.viewPart.initialized = t.viewPart.initialized := congrArg ViewPart.initialized hsame
    rw [← hsame]
    refine hfree ?_ (hinit.trans hinitialized)
    cases h : s.rejected with
    | false => rfl
    | true => rw [hbase h] at hrejected; cases hrejected
  foot op _ := op.changesView = true
  allowed _ _ _ _ _ := True
  guar _ _ _ _ _ := True
  startable _ _ := True

namespace AccountStore

variable {s t : AccountStore} {c : Command} {answer : PortAnswer} {x : Option c.Response}
  {normalizeAccountServerUrl : String → String}

theorem write_viewPart (s : AccountStore) {n : ValueName} (h : n.isShown = false) (value : Option (StoredValue n)) :
    (s.write n value).viewPart = s.viewPart := by
  have hne : ∀ other : ValueName, other.isShown = true → (s.write n value).values other = s.values other := by
    intro other hother
    refine Function.update_of_ne ?_ _ _
    rintro rfl
    rw [h] at hother
    cases hother
  exact ViewPart.ext (hne (.global .accountsList) rfl) (hne (.global .activeAccount) rfl)
    (funext fun a => hne (.account a .autoLockTimeout) rfl) (funext fun a => hne (.account a .biometricEnabled) rfl)
    rfl (hne (.global .nativeView) rfl) rfl

theorem writeNativeView_viewPart (s : AccountStore) (view : NativeHostView) :
    (s.write (.global .nativeView) (some view)).viewPart = { s.viewPart with nativeView := some view } := by
  have hne : ∀ other : ValueName, other ≠ .global .nativeView →
      (s.write (.global .nativeView) (some view)).values other = s.values other := fun other hother =>
    Function.update_of_ne hother _ _
  have hself : (s.write (.global .nativeView) (some view)).values (.global .nativeView) = some view := by
    simp only [AccountStore.write, Function.update_self]
    rfl
  exact ViewPart.ext (hne (.global .accountsList) nofun) (hne (.global .activeAccount) nofun)
    (funext fun a => hne (.account a .autoLockTimeout) nofun) (funext fun a => hne (.account a .biometricEnabled) nofun)
    rfl hself rfl

theorem deleteEntry_unlocked (s : AccountStore) (accountId : String) :
    (s.deleteEntry accountId).mukCache.map CacheEntry.accountId =
      nextUnlocked (s.mukCache.map CacheEntry.accountId) accountId none := by
  simp only [deleteEntry, nextUnlocked, List.filter_map]
  rfl

theorem setEntry_unlocked (s : AccountStore) (accountId : String) (key : MasterKeyRef) :
    (s.setEntry accountId key).mukCache.map CacheEntry.accountId =
      nextUnlocked (s.mukCache.map CacheEntry.accountId) accountId (some key) := by
  have hmem : s.mukCache.any (·.accountId = accountId) = true ↔ accountId ∈ s.mukCache.map CacheEntry.accountId := by
    simp
  unfold AccountStore.setEntry nextUnlocked
  split
  · next hany =>
    rw [if_pos (hmem.mp hany), List.map_map]
    refine List.map_congr_left fun e _ => ?_
    simp only [Function.comp_apply]
    split <;> rfl
  · next hany =>
    rw [if_neg fun h => hany (hmem.mpr h)]
    simp

theorem setEntry_viewPart (s : AccountStore) (accountId : String) (key : MasterKeyRef) :
    (s.setEntry accountId key).viewPart =
      { s.viewPart with unlocked := nextUnlocked s.viewPart.unlocked accountId (some key) } := by
  refine ViewPart.ext ?_ ?_ ?_ ?_ (setEntry_unlocked s accountId key) ?_ ?_
  all_goals
    unfold AccountStore.setEntry
    split <;> rfl

theorem loadDeviceKey_viewPart (s : AccountStore) : s.loadDeviceKey.viewPart = s.viewPart := by
  unfold loadDeviceKey
  split
  · exact write_viewPart s (n := .global .deviceKey) rfl (some "device_key")
  · rfl

theorem Performed.keepsView (h : s.Performed c t) (hc : c.keepsView) : t.viewPart = s.viewPart := by
  cases h with
  | set name value => exact write_viewPart s hc _
  | delete name => exact write_viewPart s hc _
  | getDeviceKey => exact loadDeviceKey_viewPart s
  | setEntry | deleteEntry | clear => exact hc.elim
  | nothing | dropDeviceKey | destroyKey | unwrapKey => rfl

/-! ## Programs that change nothing of it -/

theorem keepsView_of_reads (c : Command) (h : c.reads) : c.keepsView := by
  cases c with
  | get | now | readCache | isAvailable | getDetails => trivial
  | _ => exact h.elim

theorem quiet_writeValue {name : ValueName} (h : name.isShown = false) (value : StoredValue name) :
    (writeValue name value).Uses Command.keepsView := Async.uses_await h

theorem quiet_deleteValue {name : ValueName} (h : name.isShown = false) : (deleteValue name).Uses Command.keepsView :=
  Async.uses_await h

theorem quiet_authenticateWithBiometric (accountId : String) :
    (authenticateWithBiometric accountId).Uses Command.keepsView := by
  refine .orElse (.bind (Async.uses_await trivial) fun success => ?_) trivial
  split
  · exact (Async.uses_await trivial).bind fun _ => (quiet_writeValue rfl _).bind fun _ => trivial
  · trivial

theorem quiet_decryptStoredMasterUnlockKey (accountId : String) (skipBiometric : Bool) :
    (decryptStoredMasterUnlockKey accountId skipBiometric).Uses Command.keepsView := by
  have hunwrap : ∀ session : StoredSessionData, Async.Uses Command.keepsView (Async.orElse
      (do
        getDeviceKey
        return some (← unwrapKey accountId session.encryptedMasterUnlockKey))
      (return none)) := fun session =>
    .orElse (.bind (Async.uses_await trivial) fun _ => .bind (Async.uses_await trivial) fun _ => trivial) trivial
  refine ((reads_getStoredSessionData accountId).uses.mono keepsView_of_reads).bind fun session => ?_
  cases session with
  | none => trivial
  | some session =>
    refine ((reads_isMasterPasswordReentryRequired accountId).uses.mono keepsView_of_reads).bind fun due => ?_
    split
    · trivial
    · dsimp only
      split
      · refine ((reads_isBiometricAuthRequired accountId).uses.mono keepsView_of_reads).bind fun required => ?_
        split
        · refine (quiet_authenticateWithBiometric accountId).bind fun authenticated => ?_
          split
          · exact hunwrap session
          · trivial
        · exact hunwrap session
      · exact hunwrap session

theorem quiet_of_not_changesView (normalizeAccountServerUrl : String → String) {op : StoreOp} (h : op.changesView = false) :
    (program normalizeAccountServerUrl op).Uses Command.keepsView := by
  cases op with
  | storeSessionData muk accountId expiresAt =>
    exact .bind (Async.uses_await trivial) fun _ => .bind (Async.uses_await trivial) fun _ =>
      .bind (Async.uses_await trivial) fun _ => ((reads_isBiometricEnabled accountId).uses.mono keepsView_of_reads).bind fun _ =>
        quiet_writeValue rfl _
  | updateStoredSessionMetadata accountId expiresAt =>
    refine ((reads_getStoredSessionData accountId).uses.mono keepsView_of_reads).bind fun session => ?_
    cases session with
    | none => trivial
    | some session => exact quiet_writeValue rfl _
  | updateLastMasterPasswordEntry accountId =>
    refine ((reads_getStoredSessionData accountId).uses.mono keepsView_of_reads).bind fun session => ?_
    cases session with
    | none => trivial
    | some session => exact .bind (Async.uses_await trivial) fun _ => quiet_writeValue rfl _
  | authenticateWithBiometric accountId =>
    exact (quiet_authenticateWithBiometric accountId).bind fun _ => trivial
  | authenticateWithBiometricEnhanced accountId =>
    refine .bind (.orElse (.bind (Async.uses_await trivial) fun details => ?_) trivial) fun _ => trivial
    dsimp only
    split
    · refine ((reads_isBiometricEnabled accountId).uses.mono keepsView_of_reads).bind fun enabled => ?_
      split
      · refine ((reads_isSessionValid accountId).uses.mono keepsView_of_reads).bind fun sessionValid => ?_
        split
        · refine ((reads_isMasterPasswordReentryRequired accountId).uses.mono keepsView_of_reads).bind fun due => ?_
          split
          · trivial
          · refine .bind (Async.uses_await trivial) fun success => ?_
            split
            · exact .bind (Async.uses_await trivial) fun _ => (quiet_writeValue rfl _).bind fun _ =>
                (quiet_deleteValue rfl).bind fun _ => trivial
            · trivial
        · trivial
      · trivial
    · trivial
  | storeSecretKey | storeAuthToken | storeVaultKeys | storeEncryptedPrivateKey | storePinnedKdfProfile | storeServerUrl
  | storeTravelModeCache | storeBackgroundTimestamp | storeMasterPasswordReentryPeriodMs =>
    exact quiet_writeValue rfl _
  | clearBackgroundTimestamp => exact quiet_deleteValue rfl
  | _ => cases h

/-! ## Programs of an operation that changes the view -/

section Views

variable {op : StoreOp} {α β : Type} {p : StoreM α} {v w : ViewPart} {Q Q' : Option α → ViewPart → Prop}

/-- What a program does to the view, when no other operation that changes it is under way. -/
def Views (normalizeAccountServerUrl : String → String) (op : StoreOp) (Q : Option α → ViewPart → Prop) (p : StoreM α)
    (v : ViewPart) : Prop :=
  Does ((viewResources normalizeAccountServerUrl).contract op) AccountStore.perform AccountStore.viewPart Q p v

variable (hop : op.changesView = true)

include hop

theorem rely_viewPart (s t : AccountStore) (h : ((viewResources normalizeAccountServerUrl).contract op).rely s t) :
    t.viewPart = s.viewPart :=
  (h.2 () hop).symm

/-- Each command of it may do what it does. -/
theorem guar_of_changesView {seen : List (Moment AccountStore Command Command.Response)} (h : s.Performed c t) :
    ((viewResources normalizeAccountServerUrl).contract op).guar seen s c t := by
  refine ⟨fun hrejected => ?_, fun _ hfoot => absurd hop hfoot, trivial⟩
  rw [h.sameRecords.rejected]
  exact hrejected

theorem views_await {Q : Option c.Response → ViewPart → Prop}
    (h : ∀ (s : AccountStore) answer (t : AccountStore) x, s.viewPart = v → s.perform c answer = some (t, x) →
      Q x t.viewPart) :
    Views normalizeAccountServerUrl op Q (Async.await c) v :=
  does_await (rely_viewPart hop) fun _ s _ hs answer t x _ hperform =>
    ⟨guar_of_changesView hop (performed hperform), trivial, h s answer t x hs hperform⟩

theorem views_ret {a : α} (hQ : Q (some a) v) : Views normalizeAccountServerUrl op Q (.ret a) v :=
  does_ret (rely_viewPart hop) hQ

theorem views_throw (hQ : Q none v) : Views normalizeAccountServerUrl op Q (.throw : StoreM α) v :=
  does_throw (rely_viewPart hop) hQ

/-- Any program at all. -/
theorem views_any (p : StoreM α) (v : ViewPart) : Views normalizeAccountServerUrl op (fun _ _ => True) p v := by
  induction p generalizing v with
  | ret a => exact views_ret hop trivial
  | throw => exact views_throw hop trivial
  | call c k ih =>
    intro seen s hinv _ t _ _ answer u x _ hperform
    exact ⟨guar_of_changesView hop (performed hperform), trivial, ih x u.viewPart _ u trivial rfl⟩

theorem views_quiet (hp : p.Uses Command.keepsView) : Views normalizeAccountServerUrl op (fun _ w => w = v) p v :=
  does_of_uses (rely_viewPart hop) hp fun _ _ _ _ _ _ hc _ hs _ hperform =>
    ⟨guar_of_changesView hop (performed hperform), trivial, ((performed hperform).keepsView hc).trans hs⟩

/-- A read of what the view shows. -/
theorem views_readValue (name : ValueName) {x : Option (StoredValue name)}
    (hvalue : ∀ s : AccountStore, s.viewPart = v → s.values name = x) :
    Views normalizeAccountServerUrl op (fun r w => w = v ∧ ∀ a, r = some a → a = x) (readValue name) v := by
  refine views_await hop (c := .get name) fun s answer t y hs hperform => ?_
  cases answer with
  | done =>
    cases hperform
    exact ⟨hs, fun a ha => (Option.some.inj ha).symm.trans (hvalue s hs)⟩
  | failed =>
    cases hperform
    exact ⟨hs, fun a ha => by cases ha⟩
  | _ => cases hperform

theorem views_writeValue (name : ValueName) {value : StoredValue name}
    (hwrite : ∀ s : AccountStore, s.viewPart = v → (s.write name (some value)).viewPart = w) :
    Views normalizeAccountServerUrl op (fun r w' => (r ≠ none → w' = w) ∧ (r = none → w' = v)) (writeValue name value) v := by
  refine views_await hop (c := .set name value) fun s answer t x hs hperform => ?_
  cases answer with
  | done =>
    cases hperform
    exact ⟨fun _ => hwrite s hs, nofun⟩
  | failed =>
    cases hperform
    exact ⟨fun h => absurd rfl h, fun _ => hs⟩
  | _ => cases hperform

/-- What reads of the accounts list come to. -/
theorem views_readAccountsList : Views normalizeAccountServerUrl op
    (fun r w => w = v ∧ ∀ accounts, r = some accounts → accounts = AccountsListDocument.parse v.accountsList)
    readAccountsList v := by
  unfold readAccountsList
  refine Does.bind (views_readValue hop (.global .accountsList) (x := v.accountsList) fun s hs => congrArg ViewPart.accountsList hs)
    (fun document w hw => ?_) fun w hw => ⟨hw.1, nofun⟩
  obtain ⟨rfl, hdocument⟩ := hw
  refine views_ret hop ⟨rfl, fun accounts haccounts => ?_⟩
  rw [← Option.some.inj haccounts, hdocument document rfl]

theorem views_getAutoLockTimeoutOrDefault {active : Option String} (hactive : v.activeAccount = active) :
    Views normalizeAccountServerUrl op (fun r w => w = v ∧ ∀ ms, r = some ms →
      ms = (v.activeAccount.bind v.autoLockTimeout).getD DEFAULT_AUTO_LOCK_TIMEOUT_MS)
    (getAutoLockTimeoutOrDefault active) v := by
  unfold getAutoLockTimeoutOrDefault
  cases active with
  | some accountId =>
    simp only [resolveAccountId, Async.pure_eq, Async.bind_eq, Async.ret_bind]
    refine Does.bind (views_readValue hop (.account accountId .autoLockTimeout) (x := v.autoLockTimeout accountId) fun s hs =>
      congrFun (congrArg ViewPart.autoLockTimeout hs) accountId) (fun stored w hw => ?_) fun w hw => ⟨hw.1, nofun⟩
    obtain ⟨rfl, hstored⟩ := hw
    refine views_ret hop ⟨rfl, fun ms hms => ?_⟩
    rw [← Option.some.inj hms, hstored stored rfl, hactive]
    rfl
  | none =>
    refine Does.bind (views_readValue hop (.global .activeAccount) (x := none) fun s hs =>
      (congrArg ViewPart.activeAccount hs).trans hactive) (fun resolved w hw => ?_) fun w hw => ⟨hw.1, nofun⟩
    obtain ⟨rfl, hresolved⟩ := hw
    obtain rfl := hresolved resolved rfl
    refine views_ret hop ⟨rfl, fun ms hms => ?_⟩
    rw [← Option.some.inj hms, hactive]
    rfl

theorem views_projectAccounts (accounts : List AccountMetadata) : Views normalizeAccountServerUrl op
    (fun r w => w = v ∧ ∀ projected, r = some projected → projected = accounts.map fun account =>
      NativeAccount.of account ((v.biometricEnabled account.accountId).getD false)) (projectAccounts accounts) v := by
  induction accounts with
  | nil => exact views_ret hop ⟨rfl, fun projected h => (Option.some.inj h).symm⟩
  | cons account accounts ih =>
    have henabled : Views normalizeAccountServerUrl op
        (fun r w => w = v ∧ ∀ enabled, r = some enabled → enabled = (v.biometricEnabled account.accountId).getD false)
        (isBiometricEnabled account.accountId) v := by
      unfold isBiometricEnabled
      refine Does.bind (views_readValue hop (.account account.accountId .biometricEnabled) (x := v.biometricEnabled account.accountId) fun s hs =>
        congrFun (congrArg ViewPart.biometricEnabled hs) _) (fun stored w hw => ?_) fun w hw => ⟨hw.1, nofun⟩
      obtain ⟨rfl, hstored⟩ := hw
      refine views_ret hop ⟨rfl, fun enabled h => ?_⟩
      rw [← Option.some.inj h, hstored stored rfl]
    refine Does.bind henabled (fun enabled w hw => ?_) fun w hw => ⟨hw.1, nofun⟩
    obtain ⟨rfl, henabled⟩ := hw
    refine Does.bind ih (fun projected w hw => ?_) fun w hw => ⟨hw.1, nofun⟩
    obtain ⟨rfl, hprojected⟩ := hw
    refine views_ret hop ⟨rfl, fun all h => ?_⟩
    rw [← Option.some.inj h, henabled enabled rfl, hprojected projected rfl]
    rfl

/-- **Refreshing the view.** It is the projection, with the accounts that the caller gives; when a
port fails, it is what it was. -/
theorem views_refreshNativeView (unlocked : List String) : Views normalizeAccountServerUrl op
    (fun r w => (r ≠ none → w = { v with nativeView := some (v.project unlocked) }) ∧ (r = none → w = v))
    (refreshNativeView unlocked) v := by
  have hsame : ∀ w, w = v → ((none : Option Unit) ≠ none → w = { v with nativeView := some (v.project unlocked) }) ∧
      ((none : Option Unit) = none → w = v) := fun w hw => ⟨fun h => absurd rfl h, fun _ => hw⟩
  unfold refreshNativeView
  refine Does.bind (views_readAccountsList hop) (fun accounts w hw => ?_) fun w hw => hsame w hw.1
  obtain ⟨rfl, haccounts⟩ := hw
  refine Does.bind (views_readValue hop (.global .activeAccount) (x := w.activeAccount) fun s hs => congrArg ViewPart.activeAccount hs)
    (fun active w' hw => ?_) fun w' hw => hsame w' hw.1
  obtain ⟨rfl, hactive⟩ := hw
  obtain rfl := hactive active rfl
  refine Does.bind (views_getAutoLockTimeoutOrDefault hop rfl) (fun ms w hw => ?_) fun w hw => hsame w hw.1
  obtain ⟨rfl, hms⟩ := hw
  refine Does.bind (views_projectAccounts hop accounts) (fun projected w' hw => ?_) fun w' hw => hsame w' hw.1
  obtain ⟨rfl, hprojected⟩ := hw
  refine (views_writeValue hop (.global .nativeView) (w := { w' with nativeView := some (w'.project unlocked) }) fun s hs => ?_)
  rw [haccounts accounts rfl] at hprojected
  rw [hprojected projected rfl, hms ms rfl, ← hs]
  exact writeNativeView_viewPart s _

/-- After one program, another that ends with a refresh, say. -/
theorem views_then {f : α → StoreM β} {Q : Option β → ViewPart → Prop} (p : StoreM α)
    (hf : ∀ a v, Views normalizeAccountServerUrl op Q (f a) v) (hnone : ∀ v, Q none v) (v : ViewPart) :
    Views normalizeAccountServerUrl op Q (p.bind f) v :=
  Does.bind (views_any hop p v) (fun a w _ => hf a w) fun w _ => hnone w

theorem views_readCache : Views normalizeAccountServerUrl op
    (fun r w => w = v ∧ ∀ cache, r = some cache → cache.map CacheEntry.accountId = v.unlocked) readCache v := by
  refine views_await hop (c := .readCache) fun s answer t x hs hperform => ?_
  cases answer with
  | done =>
    cases hperform
    exact ⟨hs, fun cache h => by rw [← Option.some.inj h, ← hs]; rfl⟩
  | _ => cases hperform

/-- The view is fresh, unless a port has failed. -/
theorem views_refreshNativeViewNow (v : ViewPart) :
    Views normalizeAccountServerUrl op (fun r w => r ≠ none → w.Fresh) refreshNativeViewNow v := by
  unfold refreshNativeViewNow
  refine Does.bind (views_readCache hop) (fun cache w hw => ?_) fun w _ h => absurd rfl h
  obtain ⟨rfl, hunlocked⟩ := hw
  refine (views_refreshNativeView hop _).mono fun r w' hw' hr => ?_
  rw [hw'.1 hr, hunlocked cache rfl]
  rfl

theorem views_writeAccountsList (accounts : List AccountMetadata) (v : ViewPart) :
    Views normalizeAccountServerUrl op (fun r w => r ≠ none → w.Fresh) (writeAccountsList accounts) v :=
  views_then hop _ (fun _ => views_refreshNativeViewNow hop) (fun _ h => absurd rfl h) v

theorem views_writeActiveAccount (accountId : Option String) (v : ViewPart) :
    Views normalizeAccountServerUrl op (fun r w => r ≠ none → w.Fresh) (writeActiveAccount accountId) v := by
  cases accountId with
  | none => exact views_then hop _ (fun _ => views_refreshNativeViewNow hop) (fun _ h => absurd rfl h) v
  | some accountId => exact views_then hop _ (fun _ => views_refreshNativeViewNow hop) (fun _ h => absurd rfl h) v

/-- Destroying a key is not rejected. -/
theorem views_destroyKey (key : Option MasterKeyRef) (v : ViewPart) :
    Views normalizeAccountServerUrl op (fun r w => r ≠ none ∧ w = v) (destroyKey key) v := by
  cases key with
  | none => exact views_ret hop ⟨nofun, rfl⟩
  | some key =>
    exact Does.orElse (views_quiet hop (Async.uses_await trivial)) (fun _ w hw => ⟨nofun, hw⟩)
      fun w hw => views_ret hop ⟨nofun, hw⟩

/-- The set of cached keys changes as its caller was told. -/
theorem views_writeEntry (accountId : String) (entry : Option MasterKeyRef) (v : ViewPart) :
    Views normalizeAccountServerUrl op
      (fun r w => r ≠ none ∧ w = { v with unlocked := nextUnlocked v.unlocked accountId entry })
      (writeEntry accountId entry) v := by
  refine views_await hop (c := .setEntry accountId entry) fun s answer t x hs hperform => ?_
  subst hs
  cases entry with
  | none =>
    cases answer with
    | done =>
      cases hperform
      exact ⟨nofun, ViewPart.ext rfl rfl rfl rfl (deleteEntry_unlocked s accountId) rfl rfl⟩
    | _ => cases hperform
  | some key =>
    cases answer with
    | done =>
      cases hperform
      exact ⟨nofun, setEntry_viewPart s accountId key⟩
    | _ => cases hperform

/-- **Locking or unlocking one account.** The view is fresh, or a port has failed and nothing has changed. -/
theorem views_setUnlockEntry (accountId : String) (entry : Option MasterKeyRef) (v : ViewPart) :
    Views normalizeAccountServerUrl op (fun r w => (r ≠ none → w.Fresh) ∧ (r = none → w = v))
      (setUnlockEntry accountId entry) v := by
  unfold setUnlockEntry
  refine Does.bind (views_readCache hop) (fun cache w hw => ?_) fun w hw => ⟨fun h => absurd rfl h, fun _ => hw.1⟩
  obtain ⟨rfl, hunlocked⟩ := hw
  rw [hunlocked cache rfl]
  refine Does.bind (views_refreshNativeView hop _) (fun _ w' hw => ?_) fun w' hw =>
    ⟨fun h => absurd rfl h, fun _ => hw.2 rfl⟩
  have hw := hw.1 nofun
  have hwrite : Views normalizeAccountServerUrl op (fun r u => (r ≠ none → u.Fresh) ∧ (r = none → u = w))
      (writeEntry accountId entry) w' := by
    refine (views_writeEntry hop accountId entry w').mono fun r u hu => ⟨fun _ => ?_, fun h => absurd h hu.1⟩
    rw [hu.2, hw]
    rfl
  dsimp only
  split
  · exact Does.bind (views_destroyKey hop _ w') (fun _ u hu => hu.2 ▸ hwrite) fun u hu => absurd rfl hu.1
  · exact hwrite

/-! ### The operations -/

/-- Before a program, another that leaves the view as it is. -/
theorem views_after {f : α → StoreM β} {Q : Option β → ViewPart → Prop} {p : StoreM α} (hp : p.Uses Command.keepsView)
    (hf : ∀ a, Views normalizeAccountServerUrl op Q (f a) v) (hnone : Q none v) :
    Views normalizeAccountServerUrl op Q (p.bind f) v :=
  Does.bind (views_quiet hop hp) (fun a _ hw => hw ▸ hf a) fun _ hw => hw ▸ hnone

/-- Like `views_after`, for a program that only reads. -/
theorem views_reading {f : α → StoreM β} {Q : Option β → ViewPart → Prop} {p : StoreM α} (hp : p.Answers Command.reads)
    (hf : ∀ a, Views normalizeAccountServerUrl op Q (f a) v) (hnone : Q none v) :
    Views normalizeAccountServerUrl op Q (p.bind f) v :=
  views_after hop (hp.uses.mono keepsView_of_reads) hf hnone

/-- What an unlock or a lock comes to, also when it is rejected: the view is fresh, or all is as it was. -/
def Settles (v : ViewPart) (_ : Option α) (w : ViewPart) : Prop := w.Fresh ∨ w = v

theorem settles_setUnlockEntry (accountId : String) (entry : Option MasterKeyRef) (v : ViewPart) :
    Views normalizeAccountServerUrl op (Settles v) (setUnlockEntry accountId entry) v := by
  refine (views_setUnlockEntry hop accountId entry v).mono fun r w hw => ?_
  cases r with
  | none => exact .inr (hw.2 rfl)
  | some _ => exact .inl (hw.1 nofun)

theorem settles_ret {a : α} : Views normalizeAccountServerUrl op (Settles v) (.ret a) v := views_ret hop (.inr rfl)

theorem settles_then {f : α → StoreM β} {p : StoreM α} (hp : Views normalizeAccountServerUrl op (Settles v) p v)
    (hf : ∀ a, (f a).Uses Command.keepsView) : Views normalizeAccountServerUrl op (Settles v) (p.bind f) v :=
  Does.bind hp (fun a _ hw => (views_quiet hop (hf a)).mono fun _ _ hu => hu ▸ hw) fun _ hw => hw

theorem settles_tryRestoreSession (skipBiometric : Bool) (accountId : String) (v : ViewPart) :
    Views normalizeAccountServerUrl op (Settles v) (tryRestoreSession skipBiometric accountId) v := by
  refine views_reading hop (reads_isSessionValid accountId) (fun sessionValid => ?_) (.inr rfl)
  split
  · refine views_reading hop reads_readCache (fun cache => ?_) (.inr rfl)
    split
    · exact settles_ret hop
    · refine views_after hop (quiet_decryptStoredMasterUnlockKey accountId skipBiometric) (fun muk => ?_) (.inr rfl)
      cases muk with
      | none => exact settles_ret hop
      | some muk => exact settles_then hop (settles_setUnlockEntry hop accountId (some muk) v) fun _ => trivial
  · exact settles_ret hop

theorem settles_tryRestoreSessionWithoutPrompt (accountId : String) (v : ViewPart) :
    Views normalizeAccountServerUrl op (Settles v) (tryRestoreSessionWithoutPrompt accountId) v := by
  refine views_reading hop reads_readCache (fun cache => ?_) (.inr rfl)
  split
  · exact settles_ret hop
  · refine views_reading hop (reads_isBiometricAuthRequired accountId) (fun required => ?_) (.inr rfl)
    split
    · exact settles_ret hop
    · exact settles_tryRestoreSession hop true accountId v

theorem settles_unlockWithBiometric (accountId : String) (v : ViewPart) :
    Views normalizeAccountServerUrl op (Settles v) (unlockWithBiometric accountId) v := by
  refine Does.orElse (Q := Settles v) ?_ (fun _ _ hw => hw) fun w hw => views_ret hop hw
  refine views_reading hop (reads_canBiometricUnlock accountId) (fun can => ?_) (.inr rfl)
  split
  · refine views_after hop (quiet_decryptStoredMasterUnlockKey accountId false) (fun muk => ?_) (.inr rfl)
    cases muk with
    | none => exact settles_ret hop
    | some muk => exact settles_then hop (settles_setUnlockEntry hop accountId (some muk) v) fun _ => trivial
  · exact settles_ret hop

theorem settles_unlockAuthenticated (accountId : String) (v : ViewPart) :
    Views normalizeAccountServerUrl op (Settles v) (unlockAuthenticated accountId) v := by
  refine Does.orElse (Q := Settles v) ?_ (fun _ _ hw => hw) fun w hw => views_ret hop hw
  refine views_after hop (quiet_decryptStoredMasterUnlockKey accountId true) (fun muk => ?_) (.inr rfl)
  cases muk with
  | none => exact settles_ret hop
  | some muk => exact settles_setUnlockEntry hop accountId (some muk) v

/-- The batch: each account of it leaves the view fresh, or what it was. -/
theorem settles_unlockEach (accounts : List AccountMetadata) (hv : v = w ∨ v.Fresh) : Views normalizeAccountServerUrl op
    (Settles w) (accounts.forM fun account => unlockAuthenticated account.accountId) v := by
  induction accounts generalizing v with
  | nil => exact views_ret hop (hv.symm.imp id id)
  | cons account accounts ih =>
    refine Does.bind (settles_unlockAuthenticated hop account.accountId v) (fun _ u hu => ih ?_) fun u hu => ?_
    · rcases hu with hu | rfl
      · exact .inr hu
      · exact hv
    · rcases hu with hu | rfl
      · exact .inl hu
      · exact hv.symm

theorem settles_unlockAllAccountsWithBiometric (v : ViewPart) :
    Views normalizeAccountServerUrl op (Settles v) unlockAllAccountsWithBiometric v := by
  refine views_reading hop reads_readAccountsList (fun accounts => ?_) (.inr rfl)
  refine views_reading hop (reads_firstBiometricAccount accounts) (fun first => ?_) (.inr rfl)
  cases first with
  | none => exact settles_ret hop
  | some first =>
    refine views_after hop (quiet_authenticateWithBiometric first) (fun authenticated => ?_) (.inr rfl)
    split
    · exact settles_unlockEach hop accounts (.inl rfl)
    · exact settles_ret hop

theorem settles_clearSession (accountId : String) (v : ViewPart) :
    Views normalizeAccountServerUrl op (Settles v) (clearSession accountId) v := by
  refine views_after hop (quiet_deleteValue rfl) (fun _ => ?_) (.inr rfl)
  refine views_after hop (quiet_deleteValue rfl) (fun _ => ?_) (.inr rfl)
  refine views_after hop (quiet_deleteValue rfl) (fun _ => ?_) (.inr rfl)
  refine views_after hop (quiet_deleteValue rfl) (fun _ => ?_) (.inr rfl)
  refine views_reading hop reads_readCache (fun cache => ?_) (.inr rfl)
  split
  · exact settles_setUnlockEntry hop accountId none v
  · exact settles_ret hop

/-- What every operation comes to that is not rejected. -/
def Refreshes (v : ViewPart) (r : Option α) (w : ViewPart) : Prop := r ≠ none → w.Fresh ∨ w = v

theorem views_removeAccountInternal (accountId : String) (v : ViewPart) :
    Views normalizeAccountServerUrl op (fun r w => r ≠ none → w.Fresh) (removeAccountInternal accountId) v := by
  have hrest : ∀ w, Views normalizeAccountServerUrl op (fun r w => r ≠ none → w.Fresh)
      (do
        ACCOUNT_VALUES.forM fun name => deleteValue (.account accountId name)
        let cache ← readCache
        destroyKey ((List.find? (fun e : CacheEntry => e.accountId = accountId) cache).map CacheEntry.key)
        writeEntry accountId none
        let accounts ← readAccountsList
        writeAccountsList (accounts.filter (·.accountId ≠ accountId))) w := fun w =>
    views_then hop _ (fun _ => views_then hop _ (fun _ => views_then hop _ (fun _ => views_then hop _
      (fun _ => views_then hop _ (fun _ => views_writeAccountsList hop _) (fun _ h => absurd rfl h))
      (fun _ h => absurd rfl h)) (fun _ h => absurd rfl h)) (fun _ h => absurd rfl h)) (fun _ h => absurd rfl h) w
  refine views_then hop _ (fun active w => ?_) (fun _ h => absurd rfl h) v
  dsimp only
  split
  · exact views_then hop _ (fun _ => hrest) (fun _ h => absurd rfl h) w
  · exact hrest w

omit hop in
theorem refreshes_of_fresh {p : StoreM α} (h : Views normalizeAccountServerUrl op (fun r w => r ≠ none → w.Fresh) p v) :
    Views normalizeAccountServerUrl op (Refreshes v) p v := h.mono fun _ _ hw hr => .inl (hw hr)

omit hop in
theorem refreshes_of_settles {p : StoreM α} (h : Views normalizeAccountServerUrl op (Settles v) p v) :
    Views normalizeAccountServerUrl op (Refreshes v) p v := h.mono fun _ _ hw _ => hw

theorem views_setActiveAccount (accountId : Option String) (v : ViewPart) :
    Views normalizeAccountServerUrl op (fun r w => r ≠ none → w.Fresh) (setActiveAccount accountId) v := by
  refine Does.bind (views_writeActiveAccount hop accountId v) (fun _ w hw => ?_) fun _ _ h => absurd rfl h
  have hfresh : w.Fresh := hw nofun
  cases accountId with
  | none => exact views_ret hop fun _ => hfresh
  | some accountId =>
    refine views_reading hop reads_readAccountsList (fun accounts => ?_) fun h => absurd rfl h
    split
    · exact views_then hop _ (fun _ => views_writeAccountsList hop _) (fun _ h => absurd rfl h) w
    · exact views_ret hop fun _ => hfresh

theorem views_addAccount (metadata : AccountMetadata) (v : ViewPart) : Views normalizeAccountServerUrl op
    (fun r w => r ≠ none → w.Fresh) (addAccount normalizeAccountServerUrl metadata) v := by
  refine views_then hop _ (fun accounts w => ?_) (fun _ h => absurd rfl h) v
  refine views_then hop _ (fun stored w => ?_) (fun _ h => absurd rfl h) w
  dsimp only
  split
  · exact views_then hop _ (fun _ => views_writeAccountsList hop _) (fun _ h => absurd rfl h) w
  · exact views_writeAccountsList hop _ w

theorem refreshes_setInsecureTransportConfirmed (accountId : String) (confirmed : Bool) (v : ViewPart) :
    Views normalizeAccountServerUrl op (Refreshes v) (setInsecureTransportConfirmed accountId confirmed) v := by
  refine views_reading hop reads_readAccountsList (fun accounts => ?_) fun h => absurd rfl h
  split
  · exact refreshes_of_fresh (views_writeAccountsList hop _ v)
  · exact views_throw hop fun h => absurd rfl h

theorem refreshes_clearAllStoredData (accountId : Option String) (v : ViewPart) :
    Views normalizeAccountServerUrl op (Refreshes v) (clearAllStoredData accountId) v := by
  have hrest : ∀ w, w.Fresh ∨ w = v → Views normalizeAccountServerUrl op (Refreshes v)
      (do
        if (← readAccountsList).isEmpty then
          deleteValue (.global .deviceKey)
          dropDeviceKey
          writeActiveAccount none) w := by
    intro w hw
    refine views_reading hop reads_readAccountsList (fun accounts => ?_) fun h => absurd rfl h
    split
    · refine views_then hop _ (fun _ => views_then hop _ (fun _ w => ?_) (fun _ h => absurd rfl h)) (fun _ h => absurd rfl h) w
      exact (views_writeActiveAccount hop none w).mono fun _ _ hw hr => .inl (hw hr)
    · exact views_ret hop fun _ => hw
  refine views_reading hop ?_ (fun resolved => ?_) fun h => absurd rfl h
  · cases accountId with
    | none => exact reads_readValue _
    | some accountId => trivial
  · cases resolved with
    | none => exact hrest v (.inr rfl)
    | some accountId =>
      exact Does.bind (views_removeAccountInternal hop accountId v) (fun _ w hw => hrest w (.inl (hw nofun)))
        fun _ _ h => absurd rfl h

theorem views_ite_then {c : Prop} [Decidable c] {p q : StoreM Unit} {v : ViewPart}
    (hq : ∀ w, Views normalizeAccountServerUrl op (fun r w => r ≠ none → w.Fresh) q w) :
    Views normalizeAccountServerUrl op (fun r w => r ≠ none → w.Fresh) (if c then p.bind fun _ => q else q) v := by
  split
  · exact views_then hop _ (fun _ => hq) (fun _ h => absurd rfl h) v
  · exact hq v

theorem views_setBiometricEnabled (accountId : String) (enabled : Bool) (v : ViewPart) :
    Views normalizeAccountServerUrl op (fun r w => r ≠ none → w.Fresh) (setBiometricEnabled accountId enabled) v := by
  refine views_then hop _ (fun _ => views_then hop _ (fun accounts w => views_ite_then hop fun w => ?_)
    (fun _ h => absurd rfl h)) (fun _ h => absurd rfl h) v
  refine views_then hop _ (fun session w => ?_) (fun _ h => absurd rfl h) w
  cases session with
  | none => exact views_refreshNativeViewNow hop w
  | some session => exact views_ite_then hop (views_refreshNativeViewNow hop)

theorem views_lockAllAccounts (rounds : Nat) (v : ViewPart) :
    Views normalizeAccountServerUrl op (fun r w => r ≠ none → w.Fresh) (lockAllAccounts rounds) v :=
  views_then hop _ (fun _ => views_then hop _ (fun _ => views_then hop _ (fun _ => views_refreshNativeViewNow hop)
    (fun _ h => absurd rfl h)) (fun _ h => absurd rfl h)) (fun _ h => absurd rfl h) v

theorem refreshes_enableBiometric (accountId : String) (v : ViewPart) :
    Views normalizeAccountServerUrl op (Refreshes v) (enableBiometric accountId) v := by
  refine views_reading hop (Async.answers_await trivial) (fun available => ?_) fun h => absurd rfl h
  split
  · exact refreshes_of_fresh (views_setBiometricEnabled hop accountId true v)
  · exact views_ret hop fun _ => .inr rfl

theorem refreshes_discard {p : StoreM α} (h : Views normalizeAccountServerUrl op (Settles v) p v) :
    Views normalizeAccountServerUrl op (Refreshes v) (discard p) v :=
  refreshes_of_settles (settles_then hop h fun _ => trivial)

/-- **Every operation.** When it is not rejected, the view is fresh, or all is as it was. -/
theorem refreshes_program (hinit : op ≠ .initialization) (v : ViewPart) :
    Views normalizeAccountServerUrl op (Refreshes v) (program normalizeAccountServerUrl op) v := by
  cases op with
  | initialization => exact absurd rfl hinit
  | setActiveAccount accountId => exact refreshes_of_fresh (views_setActiveAccount hop accountId v)
  | addAccount metadata => exact refreshes_of_fresh (views_addAccount hop metadata v)
  | setInsecureTransportConfirmed accountId confirmed => exact refreshes_setInsecureTransportConfirmed hop accountId confirmed v
  | removeAccount accountId => exact refreshes_of_fresh (views_removeAccountInternal hop accountId v)
  | tryRestoreSession skipBiometric accountId => exact refreshes_discard hop (settles_tryRestoreSession hop skipBiometric accountId v)
  | tryRestoreSessionWithoutPrompt accountId => exact refreshes_discard hop (settles_tryRestoreSessionWithoutPrompt hop accountId v)
  | clearSession accountId => exact refreshes_of_settles (settles_clearSession hop accountId v)
  | forgetSession accountId =>
    exact refreshes_of_settles (settles_then hop (settles_clearSession hop accountId v) fun _ => quiet_deleteValue rfl)
  | clearAllStoredData accountId => exact refreshes_clearAllStoredData hop accountId v
  | setMasterUnlockKey key accountId => exact refreshes_of_settles (settles_setUnlockEntry hop accountId (some key) v)
  | clearMasterUnlockKey accountId => exact refreshes_of_settles (settles_setUnlockEntry hop accountId none v)
  | lockAllAccounts rounds => exact refreshes_of_fresh (views_lockAllAccounts hop rounds v)
  | storeAutoLockTimeout ms accountId =>
    exact refreshes_of_fresh (views_then hop _ (fun _ => views_refreshNativeViewNow hop) (fun _ h => absurd rfl h) v)
  | setBiometricEnabled accountId enabled => exact refreshes_of_fresh (views_setBiometricEnabled hop accountId enabled v)
  | enableBiometric accountId => exact refreshes_enableBiometric hop accountId v
  | disableBiometric accountId => exact refreshes_of_fresh (views_setBiometricEnabled hop accountId false v)
  | unlockWithBiometric accountId => exact refreshes_discard hop (settles_unlockWithBiometric hop accountId v)
  | unlockAllAccountsWithBiometric => exact refreshes_of_settles (settles_unlockAllAccountsWithBiometric hop v)
  | _ => cases hop

end Views

/-! ## The view of every run -/

/-- When a call has settled, the view is fresh, if it was. -/
theorem settled_fresh {op : StoreOp} {r : Option Unit}
    (hfree : s.initialized = true → s.viewPart.Fresh)
    (h : r ≠ none → t.viewPart.Fresh ∨ op ≠ .initialization ∧ t.viewPart = s.viewPart)
    (hrejected : (settled op r t).rejected = false) (hinitialized : (settled op r t).initialized = true) :
    (settled op r t).viewPart.Fresh := by
  have hr : r ≠ none := by
    rintro rfl
    simp [settled] at hrejected
  rcases h hr with hfresh | ⟨hop, hsame⟩
  · exact hfresh
  · have hinit : t.initialized = true := by simpa [settled, hop] using hinitialized
    have hsame' : t.initialized = s.initialized := congrArg ViewPart.initialized hsame
    have hfresh : t.viewPart.Fresh := hsame ▸ hfree (hsame' ▸ hinit)
    exact hfresh

/-- What a call ends with. -/
theorem viewResources_post {op : StoreOp} {r : Option Unit} {seen : List (Moment AccountStore Command Command.Response)}
    (hfresh : op.changesView = true → (settled op r t).rejected = false → (settled op r t).initialized = true →
      (settled op r t).viewPart.Fresh) : (viewResources normalizeAccountServerUrl).post op r seen t := by
  refine ⟨⟨trivial, fun h => ?_, fun _ hfoot => ?_⟩, fun _ => hfresh⟩
  · change (t.rejected || r.isNone) = true
    rw [h, Bool.true_or]
  · have hinit : op ≠ .initialization := by
      rintro rfl
      exact hfoot rfl
    have hsame : (settled op r t).initialized = t.initialized := by simp [settled, hinit]
    exact ViewPart.ext rfl rfl rfl rfl rfl rfl hsame.symm

/-- A program of which nothing is to be shown but that it rejects when its store has. -/
theorem safe_of_rejected {op : StoreOp} (hop : op.changesView = true) (h : s.rejected = true) :
    Safe ((viewResources normalizeAccountServerUrl).contract op) AccountStore.perform
      ((viewResources normalizeAccountServerUrl).post op) (program normalizeAccountServerUrl op) [] s := by
  have hkept : ∀ s t : AccountStore, ((viewResources normalizeAccountServerUrl).contract op).rely s t → s.rejected = true →
      t.rejected = true := fun _ _ hrely => hrely.1
  refine (safe_of_uses (P := fun _ => True) (A := fun s => s.rejected = true) (Async.uses_all (fun _ => trivial) _)
    (fun s t _ => hkept s t) (fun seen s c answer t x _ _ hs _ hperform => ?_) h).mono fun r seen t _ ht => ?_
  · have hperformed := performed hperform
    exact ⟨guar_of_changesView hop hperformed, trivial, hperformed.sameRecords.rejected.trans hs⟩
  · refine viewResources_post fun _ hrejected => ?_
    change (t.rejected || r.isNone) = false at hrejected
    rw [ht] at hrejected
    cases hrejected

theorem viewResources_sound (normalizeAccountServerUrl : String → String) : (viewResources normalizeAccountServerUrl).Sound where
  other clock s s' h _ := by
    have h : tick clock s = some s' := h
    unfold tick at h
    split at h
    · cases h
      exact ⟨trivial, id, fun _ _ => rfl⟩
    · cases h
  start op s _ _ hfree := by
    refine ⟨⟨trivial, id, fun _ _ => rfl⟩, ?_⟩
    cases hop : op.changesView with
    | false =>
      refine (safe_of_uses (A := fun _ => True) (quiet_of_not_changesView normalizeAccountServerUrl hop) (fun _ _ _ _ _ => trivial)
        (fun seen s c answer t x hc _ _ _ hperform => ?_) trivial).mono fun r seen t _ _ => viewResources_post fun h => ?_
      · have hperformed := performed hperform
        refine ⟨⟨fun h => ?_, fun _ _ => (hperformed.keepsView hc).symm, trivial⟩, trivial, trivial⟩
        exact hperformed.sameRecords.rejected.trans h
      · rw [hop] at h
        cases h
    | true =>
      cases hrejected : s.rejected with
      | true => exact safe_of_rejected hop hrejected
      | false =>
        have hfresh : s.initialized = true → s.viewPart.Fresh := hfree () hop hrejected
        have hviews : Views normalizeAccountServerUrl op
            (fun r w => r ≠ none → w.Fresh ∨ op ≠ .initialization ∧ w = s.viewPart)
            (program normalizeAccountServerUrl op) s.viewPart := by
          by_cases hinit : op = .initialization
          · subst hinit
            exact (views_refreshNativeViewNow hop s.viewPart).mono fun _ _ hw hr => .inl (hw hr)
          · exact (refreshes_program hop hinit s.viewPart).mono fun _ _ hw hr => (hw hr).imp id fun h => ⟨hinit, h⟩
        exact (hviews [] (started op s) trivial rfl).mono fun r seen t _ ht =>
          viewResources_post fun _ => settled_fresh hfresh ht

end AccountStore

instance (v : ViewPart) : Decidable v.Fresh := inferInstanceAs (Decidable (_ = _))

/-! ## Main results -/

/-- An operation that changes the view is not called while another is under way. -/
def ViewsApart (q : Calls AccountStore Command Command.Response StoreOp Unit) : CallLabel StoreOp PortAnswer Nat → Prop
  | .start op => op.changesView = true → ∀ t ∈ q.calls, t.rest.waits = true → t.op.changesView = false
  | _ => True

instance (q : Calls AccountStore Command Command.Response StoreOp Unit) :
    ∀ label, Decidable (ViewsApart q label)
  | .start op => inferInstanceAs (Decidable (op.changesView = true → ∀ t ∈ q.calls, _ → _))
  | .resume _ _ | .other _ => inferInstanceAs (Decidable True)

/-- **The native view is what the store holds.** When no two operations that change it overlap, then whenever
none is under way and none was rejected, the stored view is the projection of the stored values and of the
accounts whose key is cached. -/
theorem native_view_is_projection (normalizeAccountServerUrl : String → String)
    {q : Calls AccountStore Command Command.Response StoreOp Unit}
    (h : ((accountStore normalizeAccountServerUrl).system AccountStore.Initial).ReachableUnder ViewsApart q)
    (hsettled : ∀ t ∈ q.calls, t.rest.waits = false) (hinitialized : q.shared.initialized = true)
    (hrejected : q.shared.rejected = false) : q.shared.viewPart.Fresh := by
  have hholds := (AccountStore.viewResources_sound normalizeAccountServerUrl).holds (I := AccountStore.Initial)
    (fun s hinit => ⟨trivial, fun _ _ h => by rw [hinit.initialized] at h; cases h⟩)
    (h.mono fun q label hlabel => by
      cases label with
      | start op =>
        refine ⟨trivial, fun t ht hwaits _ hfoot => ?_⟩
        have := hlabel hfoot.1 t ht hwaits
        rw [hfoot.2] at this
        cases this
      | resume k answer => exact fun _ _ _ _ _ => trivial
      | other clock => trivial)
  exact hholds.free () (fun t ht hwaits => by rw [hsettled t ht] at hwaits; cases hwaits) hrejected hinitialized

/-- `initialize`, run to its end. -/
def exampleStart : List (CallLabel StoreOp PortAnswer Nat) := .start .initialization :: List.replicate 7 (.resume 0 .done)

/-- One account restored after the other. -/
def exampleRestores : List (CallLabel StoreOp PortAnswer Nat) :=
  exampleStart ++
    .start (.tryRestoreSessionWithoutPrompt "alice") :: List.replicate 9 (.resume 1 .done) ++
    .resume 1 (.key 0) :: List.replicate 8 (.resume 1 .done) ++
    .start (.tryRestoreSessionWithoutPrompt "bob") :: List.replicate 9 (.resume 2 .done) ++
    .resume 2 (.key 1) :: List.replicate 8 (.resume 2 .done)

theorem native_view_is_projection_restored :
    ∃ q, ((accountStore id).system AccountStore.Initial).ReachableUnder ViewsApart q ∧
      q.shared.viewPart.unlocked = ["alice", "bob"] ∧ q.shared.viewPart.Fresh := by
  have hcheck : (((accountStore id).system AccountStore.Initial).runUnder ViewsApart ⟨exampleStore, []⟩ exampleRestores).any
      (fun q => (∀ t ∈ q.calls, t.rest.waits = false) ∧ q.shared.initialized = true ∧ q.shared.rejected = false ∧
        q.shared.viewPart.unlocked = ["alice", "bob"]) = true := by
    decide +kernel
  rw [Option.any_eq_true] at hcheck
  obtain ⟨q, hq, h⟩ := hcheck
  obtain ⟨hsettled, hinitialized, hrejected, hunlocked⟩ := of_decide_eq_true h
  have hreached := System.ReachableUnder.runUnder (.init exampleStore_init) hq
  exact ⟨q, hreached, hunlocked, native_view_is_projection id hreached hsettled hinitialized hrejected⟩

/-- Two restores that go on together, as the ones at start-up do: each publishes the accounts that were
cached before either of them. -/
theorem overlapping_restores : ∃ q, ((accountStore id).system AccountStore.Initial).Reachable q ∧
    (∀ t ∈ q.calls, t.rest.waits = false) ∧ q.shared.initialized = true ∧ q.shared.rejected = false ∧
    q.shared.viewPart.unlocked = ["alice", "bob"] ∧
    q.shared.viewPart.nativeView.map (·.unlockedAccountIds) = some ["bob"] ∧ ¬ q.shared.viewPart.Fresh := by
  have hcheck : (((accountStore id).system AccountStore.Initial).run ⟨exampleStore, []⟩
      (exampleStart ++
        [.start (.tryRestoreSessionWithoutPrompt "alice"), .start (.tryRestoreSessionWithoutPrompt "bob")] ++
        (List.replicate 9 [.resume 1 .done, .resume 2 .done]).flatten ++
        [.resume 1 (.key 0), .resume 2 (.key 1)] ++
        (List.replicate 8 [.resume 1 .done, .resume 2 .done]).flatten)).any
      (fun q => (∀ t ∈ q.calls, t.rest.waits = false) ∧ q.shared.initialized = true ∧ q.shared.rejected = false ∧
        q.shared.viewPart.unlocked = ["alice", "bob"] ∧
        q.shared.viewPart.nativeView.map (·.unlockedAccountIds) = some ["bob"] ∧ ¬ q.shared.viewPart.Fresh) = true := by
    decide +kernel
  rw [Option.any_eq_true] at hcheck
  obtain ⟨q, hq, h⟩ := hcheck
  exact ⟨q, .run (.init exampleStore_init) hq, of_decide_eq_true h⟩

end Bittery
