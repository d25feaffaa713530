/-
The account store of the clients: `packages/storage/src/account-store.ts`.

Every operation is an asynchronous program over the ports. A storage call is one command, also
where the source reaches it through several functions, and so is what runs between two awaits
on the map of cached keys. What the ports answer comes with the label.

A stored value has the type it is written with; the texts that storage has for it, and what
does not parse, are left out, as are the key references of the native view, which only name
where a value is stored, and the listeners. An operation without an account id is the one on
the active account, which it reads first; an account id is not empty, which the source takes
for none.
-/
import Bittery.Lib.Calls
import Mathlib.Logic.Function.Basic

namespace Bittery

open Lib

/-! ## What is stored -/

inductive GlobalValueName
  | deviceKey
  | accountsList
  | activeAccount
  | masterPasswordReentryPeriodMs
  | nativeView
deriving DecidableEq, Repr

/-- `ACCOUNT_VALUES`. -/
inductive AccountValueName
  | secretKey
  | sessionData
  | vaultKeys
  | pinnedKdfParams
  | biometricEnabled
  | lastBiometricAuth
  | serverUrl
  | encryptedPrivateKey
  | travelModeCache
  | jwtToken
  | autoLockTimeout
  | backgroundTimestamp
deriving DecidableEq, Repr

def ACCOUNT_VALUES : List AccountValueName :=
  [.secretKey, .sessionData, .vaultKeys, .pinnedKdfParams, .biometricEnabled, .lastBiometricAuth, .serverUrl,
    .encryptedPrivateKey, .travelModeCache, .jwtToken, .autoLockTimeout, .backgroundTimestamp]

inductive ValueName
  | global (name : GlobalValueName)
  | account (accountId : String) (name : AccountValueName)
deriving DecidableEq, Repr

structure AccountMetadata where
  accountId : String
  email : String
  userId : String
  name : String
  serverUrl : String
  teamName : Option String
  teamAvatarUrl : Option (Option String)
  secretKeyHint : String
  addedAt : Nat
  lastActiveAt : Nat
  biometricEnabled : Bool
  /-- Nothing when it is not a boolean. -/
  insecureTransportConfirmed : Option Bool
deriving DecidableEq, Repr

structure AccountsListDocument where
  version : Nat
  accounts : List AccountMetadata
deriving DecidableEq, Repr

structure StoredSessionData where
  encryptedMasterUnlockKey : String
  expiresAt : Nat
  serverExpiresAt : Option Nat
  createdAt : Nat
  biometricEnabled : Bool
  lastMasterPasswordEntry : Option Nat
deriving DecidableEq, Repr

/-- An account of the native view. -/
structure NativeAccount where
  accountId : String
  email : String
  userId : String
  name : String
  secretKeyHint : String
  teamName : Option String
  teamAvatarUrl : Option (Option String)
  addedAt : Nat
  lastActiveAt : Nat
  biometricEnabled : Bool
deriving DecidableEq, Repr

structure NativeHostView where
  activeAccountId : Option String
  unlockedAccountIds : List String
  autoLockTimeoutMs : Int
  accounts : List NativeAccount
deriving DecidableEq, Repr

def StoredValue : ValueName → Type
  | .global .accountsList => AccountsListDocument
  | .global .masterPasswordReentryPeriodMs => Int
  | .global .nativeView => NativeHostView
  | .global _ => String
  | .account _ .sessionData => StoredSessionData
  | .account _ .biometricEnabled => Bool
  | .account _ .lastBiometricAuth => Nat
  | .account _ .autoLockTimeout => Int
  | .account _ _ => String

/-- A reference of the crypto port to a master unlock key. -/
abbrev MasterKeyRef := Nat

/-- An entry of the map of cached keys; a map goes through its entries by when they were added. -/
structure CacheEntry where
  accountId : String
  key : MasterKeyRef
  serial : Nat
deriving DecidableEq, Repr

structure AccountStore where
  clock : Nat
  values : (name : ValueName) → Option (StoredValue name)
  mukCache : List CacheEntry
  nextSerial : Nat
  deviceKeyCache : Bool
  /-- Records: the account that a key was made or handed over for, the keys that were cached, those
  that the port has destroyed, … -/
  destined : MasterKeyRef → Option String
  owned : List MasterKeyRef
  destroyed : List MasterKeyRef
  /-- … the accounts that were locked since an unlock operation was started for them, … -/
  locked : String → Bool
  /-- … whether `initialize` has settled, and whether an operation was rejected. -/
  initialized : Bool
  rejected : Bool

/-! ## The ports -/

inductive Command
  | get (name : ValueName)
  | set (name : ValueName) (value : StoredValue name)
  | delete (name : ValueName)
  | now
  | getDeviceKey
  | dropDeviceKey
  | readCache
  | setEntry (accountId : String) (key : Option MasterKeyRef)
  /-- The next entry of an iteration; when there is none, the map is cleared. -/
  | nextEntry (after : Option Nat)
  | destroyKey (key : MasterKeyRef)
  | wrapKey (key : MasterKeyRef)
  | unwrapKey (accountId : String) (wrapped : String)
  | isAvailable
  | getDetails
  | authenticate
  /-- Is never answered. -/
  | never

def Command.Response : Command → Type
  | .get name => Option (StoredValue name)
  | .set _ _ | .delete _ | .getDeviceKey | .dropDeviceKey | .setEntry _ _ | .destroyKey _ => Unit
  | .now => Nat
  | .readCache => List CacheEntry
  | .nextEntry _ => Option CacheEntry
  | .wrapKey _ => String
  | .unwrapKey _ _ => MasterKeyRef
  | .isAvailable | .getDetails | .authenticate => Bool
  | .never => Empty

/-- What a port answers; `failed` is a rejection. -/
inductive PortAnswer
  | done
  | failed
  | yes (answer : Bool)
  | key (key : MasterKeyRef)
  | wrapped (text : String)
deriving DecidableEq, Repr

namespace AccountStore

variable (s : AccountStore)

def write (name : ValueName) (value : Option (StoredValue name)) : AccountStore :=
  { s with values := Function.update s.values name value }

/-- The cached key of an account. -/
def entry (accountId : String) : Option MasterKeyRef := (s.mukCache.find? (·.accountId = accountId)).map (·.key)

/-- `mukCache.set`: an account that is there keeps its place. -/
def setEntry (accountId : String) (key : MasterKeyRef) : AccountStore :=
  if s.mukCache.any (·.accountId = accountId) then
    { s with
      mukCache := s.mukCache.map fun e => if e.accountId = accountId then { e with key := key } else e
      owned := key :: s.owned }
  else
    { s with
      mukCache := s.mukCache ++ [⟨accountId, key, s.nextSerial⟩]
      nextSerial := s.nextSerial + 1
      owned := key :: s.owned }

def deleteEntry (accountId : String) : AccountStore :=
  { s with mukCache := s.mukCache.filter (·.accountId ≠ accountId) }

def nextEntry (after : Option Nat) : Option CacheEntry :=
  s.mukCache.find? fun e => after.all (· < e.serial)

/-- A key that the port makes is a new one. -/
def makeKey (accountId : String) (key : MasterKeyRef) : Option AccountStore :=
  if s.destined key = none then some { s with destined := Function.update s.destined key (some accountId) } else none

/-- `getDeviceKey`: the stored key, or a new one. -/
def loadDeviceKey : AccountStore :=
  match s.deviceKeyCache, s.values (.global .deviceKey) with
  | false, none => { s.write (.global .deviceKey) (some "device_key") with deviceKeyCache := true }
  | _, _ => { s with deviceKeyCache := true }

def perform : (c : Command) → PortAnswer → Option (AccountStore × Option c.Response)
  | .get name, .done => some (s, some (s.values name))
  | .set name value, .done => some (s.write name (some value), some ())
  | .delete name, .done => some (s.write name none, some ())
  | .now, .done => some (s, some s.clock)
  | .getDeviceKey, .done => some (s.loadDeviceKey, some ())
  | .dropDeviceKey, .done => some ({ s with deviceKeyCache := false }, some ())
  | .readCache, .done => some (s, some s.mukCache)
  | .setEntry accountId (some key), .done => some (s.setEntry accountId key, some ())
  | .setEntry accountId none, .done => some (s.deleteEntry accountId, some ())
  | .nextEntry after, .done =>
    match s.nextEntry after with
    | some e => some (s, some (some e))
    | none => some ({ s with mukCache := [] }, some none)
  | .destroyKey key, .done => some ({ s with destroyed := key :: s.destroyed }, some ())
  | .wrapKey _, .wrapped text => some (s, some text)
  | .unwrapKey accountId _, .key key => (s.makeKey accountId key).map fun s => (s, some key)
  | .isAvailable, .yes answer => some (s, some answer)
  | .getDetails, .yes answer => some (s, some answer)
  | .authenticate, .yes answer => some (s, some answer)
  | .get _, .failed | .set _ _, .failed | .delete _, .failed | .getDeviceKey, .failed | .destroyKey _, .failed
  | .wrapKey _, .failed | .unwrapKey _ _, .failed | .isAvailable, .failed | .getDetails, .failed
  | .authenticate, .failed => some (s, none)
  | _, _ => none

/-- What a command may do to the state. -/
inductive Performed : Command → AccountStore → Prop
  | nothing (c : Command) : Performed c s
  | set (name : ValueName) (value : StoredValue name) : Performed (.set name value) (s.write name (some value))
  | delete (name : ValueName) : Performed (.delete name) (s.write name none)
  | getDeviceKey : Performed .getDeviceKey s.loadDeviceKey
  | dropDeviceKey : Performed .dropDeviceKey { s with deviceKeyCache := false }
  | setEntry (accountId : String) (key : MasterKeyRef) : Performed (.setEntry accountId (some key)) (s.setEntry accountId key)
  | deleteEntry (accountId : String) : Performed (.setEntry accountId none) (s.deleteEntry accountId)
  | clear (after : Option Nat) : s.nextEntry after = none → Performed (.nextEntry after) { s with mukCache := [] }
  | destroyKey (key : MasterKeyRef) : Performed (.destroyKey key) { s with destroyed := key :: s.destroyed }
  | unwrapKey (accountId wrapped : String) (key : MasterKeyRef) : s.destined key = none →
    Performed (.unwrapKey accountId wrapped) { s with destined := Function.update s.destined key (some accountId) }

theorem performed {s t : AccountStore} {c : Command} {answer : PortAnswer} {x : Option c.Response}
    (h : s.perform c answer = some (t, x)) : s.Performed c t := by
  unfold perform at h
  split at h
  case h_2 => cases h; exact .set _ _
  case h_3 => cases h; exact .delete _
  case h_5 => cases h; exact .getDeviceKey
  case h_6 => cases h; exact .dropDeviceKey
  case h_8 => cases h; exact .setEntry _ _
  case h_9 => cases h; exact .deleteEntry _
  case h_10 =>
    split at h
    · cases h; exact .nothing _
    · next hnone => cases h; exact .clear _ hnone
  case h_11 => cases h; exact .destroyKey _
  case h_13 =>
    unfold makeKey at h
    split at h
    · next hnew => cases h; exact .unwrapKey _ _ _ hnew
    · cases h
  case h_27 => cases h
  all_goals
    cases h
    exact .nothing _

end AccountStore

abbrev StoreM := Async Command Command.Response

/-! ## The ports, for a program -/

def readValue (name : ValueName) : StoreM (Option (StoredValue name)) := Async.await (Command.get name)

def writeValue (name : ValueName) (value : StoredValue name) : StoreM Unit := Async.await (Command.set name value)

def deleteValue (name : ValueName) : StoreM Unit := Async.await (Command.delete name)

def now : StoreM Nat := Async.await Command.now

def readCache : StoreM (List CacheEntry) := Async.await Command.readCache

def isAvailable : StoreM Bool := Async.await Command.isAvailable

def getDetails : StoreM Bool := Async.await Command.getDetails

def authenticate : StoreM Bool := Async.await Command.authenticate

def getDeviceKey : StoreM Unit := Async.await Command.getDeviceKey

def dropDeviceKey : StoreM Unit := Async.await Command.dropDeviceKey

def wrapKey (key : MasterKeyRef) : StoreM String := Async.await (Command.wrapKey key)

def unwrapKey (accountId wrapped : String) : StoreM MasterKeyRef := Async.await (Command.unwrapKey accountId wrapped)

def writeEntry (accountId : String) (entry : Option MasterKeyRef) : StoreM Unit := Async.await (Command.setEntry accountId entry)

def ACCOUNTS_LIST_VERSION : Nat := 2

def DEFAULT_SESSION_EXPIRY_MS : Nat := 14 * 24 * 60 * 60 * 1000

def DEFAULT_AUTO_LOCK_TIMEOUT_MS : Int := 10 * 60 * 1000

def BIOMETRIC_GRACE_PERIOD_MS : Nat := 10 * 60 * 1000

def MASTER_PASSWORD_REENTRY_PERIOD_MS : Int := 30 * 24 * 60 * 60 * 1000

/-- A number, or a date, when it can be read as one. -/
inductive SessionExpiryInput
  | number (n : Nat)
  | date (timestamp : Option Nat)
deriving DecidableEq, Repr

def resolveStoredSessionExpiryTimestamp (expiresAt : Option SessionExpiryInput) (createdAt : Nat) : Nat :=
  match expiresAt with
  | none | some (.date none) => createdAt + DEFAULT_SESSION_EXPIRY_MS
  | some (.number n) => if n > 1000000000000 then n else createdAt + n
  | some (.date (some timestamp)) => timestamp

def effectiveSessionExpiry (session : StoredSessionData) : Nat := session.serverExpiresAt.getD session.expiresAt

/-- The accounts of the list, unless it is of another version or an entry of it is malformed. -/
def AccountsListDocument.parse (document : Option AccountsListDocument) : List AccountMetadata :=
  match document with
  | none => []
  | some document =>
    if document.version ≠ ACCOUNTS_LIST_VERSION ∨
        document.accounts.any fun a => a.serverUrl = "" ∨ a.insecureTransportConfirmed = none then []
    else document.accounts

def StoredSessionData.normalize (session : StoredSessionData) : StoredSessionData :=
  { session with
    expiresAt := resolveStoredSessionExpiryTimestamp (some (.number session.expiresAt)) session.createdAt
    serverExpiresAt := session.serverExpiresAt.map fun t =>
      resolveStoredSessionExpiryTimestamp (some (.number t)) session.createdAt }

def NativeAccount.of (account : AccountMetadata) (biometricEnabled : Bool) : NativeAccount :=
  ⟨account.accountId, account.email, account.userId, account.name, account.secretKeyHint, account.teamName,
    account.teamAvatarUrl, account.addedAt, account.lastActiveAt, biometricEnabled⟩

namespace AccountStore

/-! ## Reads -/

def readAccountsList : StoreM (List AccountMetadata) := do
  return AccountsListDocument.parse (← readValue (.global .accountsList))

def getActiveAccount : StoreM (Option String) := readValue (.global .activeAccount)

def resolveAccountId : Option String → StoreM (Option String)
  | some accountId => return some accountId
  | none => getActiveAccount

def getStoredSessionData (accountId : String) : StoreM (Option StoredSessionData) := do
  let parsed ← readValue (.account accountId .sessionData)
  return Option.map StoredSessionData.normalize parsed

def getAuthToken (accountId : String) : StoreM (Option String) := readValue (.account accountId .jwtToken)

def isSessionValid (accountId : String) : StoreM Bool := do
  let session ← getStoredSessionData accountId
  let token ← getAuthToken accountId
  match session, token with
  | some session, some token => if token = "" then return false else return (← now) < effectiveSessionExpiry session
  | _, _ => return false

def getAutoLockTimeoutOrDefault (accountId : Option String) : StoreM Int := do
  match ← resolveAccountId accountId with
  | none => return DEFAULT_AUTO_LOCK_TIMEOUT_MS
  | some accountId =>
    let stored ← readValue (.account accountId .autoLockTimeout)
    return Option.getD stored DEFAULT_AUTO_LOCK_TIMEOUT_MS

def getMasterPasswordReentryPeriodMs : StoreM Int := do
  let stored ← readValue (.global .masterPasswordReentryPeriodMs)
  return Option.getD stored MASTER_PASSWORD_REENTRY_PERIOD_MS

def isBiometricEnabled (accountId : String) : StoreM Bool := do
  let stored ← readValue (.account accountId .biometricEnabled)
  return Option.getD stored false

/-! ## The native view -/

def projectAccounts : List AccountMetadata → StoreM (List NativeAccount)
  | [] => return []
  | account :: accounts => do
    let biometricEnabled ← isBiometricEnabled account.accountId
    return NativeAccount.of account biometricEnabled :: (← projectAccounts accounts)

def refreshNativeView (unlockedAccountIds : List String) : StoreM Unit := do
  let accounts ← readAccountsList
  let active ← getActiveAccount
  let autoLockTimeoutMs ← getAutoLockTimeoutOrDefault active
  let projected ← projectAccounts accounts
  writeValue (.global .nativeView) (⟨active, unlockedAccountIds, autoLockTimeoutMs, projected⟩ : NativeHostView)

/-- With the accounts that are cached when it is called. -/
def refreshNativeViewNow : StoreM Unit := do
  let cache ← readCache
  refreshNativeView (List.map CacheEntry.accountId cache)

/-- A failure to destroy a key breaks nothing. -/
def destroyKey : Option MasterKeyRef → StoreM Unit
  | none => return
  | some key => (Async.await (Command.destroyKey key)).orElse (return)

def nextUnlocked (unlocked : List String) (accountId : String) (entry : Option MasterKeyRef) : List String :=
  match entry with
  | none => unlocked.filter (· ≠ accountId)
  | some _ => if accountId ∈ unlocked then unlocked else unlocked ++ [accountId]

def setUnlockEntry (accountId : String) (entry : Option MasterKeyRef) : StoreM Unit := do
  let cache ← readCache
  let previous := (List.find? (fun e : CacheEntry => e.accountId = accountId) cache).map CacheEntry.key
  refreshNativeView (nextUnlocked (List.map CacheEntry.accountId cache) accountId entry)
  if previous ≠ entry then destroyKey previous
  writeEntry accountId entry

def writeAccountsList (accounts : List AccountMetadata) : StoreM Unit := do
  writeValue (.global .accountsList) (⟨ACCOUNTS_LIST_VERSION, accounts⟩ : AccountsListDocument)
  refreshNativeViewNow

def writeActiveAccount (accountId : Option String) : StoreM Unit := do
  match accountId with
  | some accountId => writeValue (.global .activeAccount) accountId
  | none => deleteValue (.global .activeAccount)
  refreshNativeViewNow

/-! ## Unlocking -/

def isBiometricAuthRequired (accountId : String) : StoreM Bool := do
  let session ← getStoredSessionData accountId
  if session.any (·.biometricEnabled) then
    let lastAuth : Option Nat ← readValue (.account accountId .lastBiometricAuth)
    match lastAuth with
    | none => return true
    | some lastAuth => return (← now) - lastAuth > BIOMETRIC_GRACE_PERIOD_MS
  else return false

def authenticateWithBiometric (accountId : String) : StoreM Bool := Async.orElse
  (do
    if ← authenticate then
      writeValue (.account accountId .lastBiometricAuth) (← now)
      return true
    else return false)
  (return false)

def isMasterPasswordReentryRequired (accountId : String) : StoreM Bool := do
  match ← getStoredSessionData accountId with
  | none => return false
  | some session =>
    if session.biometricEnabled then
      let periodMs ← getMasterPasswordReentryPeriodMs
      if periodMs < 0 then return false
      else
        let lastEntry := session.lastMasterPasswordEntry.getD session.createdAt
        let now ← now
        return (now : Int) - lastEntry ≥ periodMs
    else return false

def canBiometricUnlock (accountId : String) : StoreM Bool := do
  let available ← isAvailable
  let enabled ← isBiometricEnabled accountId
  let sessionValid ← isSessionValid accountId
  return available && enabled && sessionValid

def decryptStoredMasterUnlockKey (accountId : String) (skipBiometric : Bool) : StoreM (Option MasterKeyRef) := do
  match ← getStoredSessionData accountId with
  | none => return none
  | some session =>
    if ← isMasterPasswordReentryRequired accountId then return none
    else
      let authenticated ←
        if !skipBiometric && session.biometricEnabled then
          if ← isBiometricAuthRequired accountId then authenticateWithBiometric accountId else pure true
        else pure true
      if authenticated then
        Async.orElse
          (do
            getDeviceKey
            return some (← unwrapKey accountId session.encryptedMasterUnlockKey))
          (return none)
      else return none

def tryRestoreSession (skipBiometric : Bool) (accountId : String) : StoreM Bool := do
  if ← isSessionValid accountId then
    let cache ← readCache
    if List.any cache (·.accountId = accountId) then return true
    else
      match ← decryptStoredMasterUnlockKey accountId skipBiometric with
      | none => return false
      | some muk =>
        setUnlockEntry accountId (some muk)
        return true
  else return false

def tryRestoreSessionWithoutPrompt (accountId : String) : StoreM Bool := do
  let cache ← readCache
  if List.any cache (·.accountId = accountId) then return true
  else if ← isBiometricAuthRequired accountId then return false
  else tryRestoreSession true accountId

def unlockWithBiometric (accountId : String) : StoreM Bool := Async.orElse
  (do
    if ← canBiometricUnlock accountId then
      match ← decryptStoredMasterUnlockKey accountId false with
      | none => return false
      | some muk =>
        setUnlockEntry accountId (some muk)
        return true
    else return false)
  (return false)

/-- The first account that the batch prompts for. -/
def firstBiometricAccount : List AccountMetadata → StoreM (Option String)
  | [] => return none
  | account :: accounts => do
    if ← canBiometricUnlock account.accountId then return some account.accountId
    else firstBiometricAccount accounts

/-- One account of the batch. -/
def unlockAuthenticated (accountId : String) : StoreM Unit := Async.orElse
  (do
    match ← decryptStoredMasterUnlockKey accountId true with
    | none => return
    | some muk => setUnlockEntry accountId (some muk))
  (return)

def unlockAllAccountsWithBiometric : StoreM Unit := do
  let accounts ← readAccountsList
  match ← firstBiometricAccount accounts with
  | none => return
  | some firstAccountId =>
    if ← authenticateWithBiometric firstAccountId then
      accounts.forM fun account => unlockAuthenticated account.accountId

/-! ## Locking -/

def removeAccountInternal (accountId : String) : StoreM Unit := do
  let active ← getActiveAccount
  if active = some accountId then writeActiveAccount none
  ACCOUNT_VALUES.forM fun name => deleteValue (.account accountId name)
  let cache ← readCache
  destroyKey ((List.find? (fun e : CacheEntry => e.accountId = accountId) cache).map CacheEntry.key)
  writeEntry accountId none
  let accounts ← readAccountsList
  writeAccountsList (accounts.filter (·.accountId ≠ accountId))

def clearSession (accountId : String) : StoreM Unit := do
  deleteValue (.account accountId .jwtToken)
  deleteValue (.account accountId .vaultKeys)
  deleteValue (.account accountId .encryptedPrivateKey)
  deleteValue (.account accountId .lastBiometricAuth)
  let cache ← readCache
  if List.any cache (·.accountId = accountId) then setUnlockEntry accountId none

def forgetSession (accountId : String) : StoreM Unit := do
  clearSession accountId
  deleteValue (.account accountId .sessionData)

def clearAllStoredData (accountId : Option String) : StoreM Unit := do
  match ← resolveAccountId accountId with
  | some accountId => removeAccountInternal accountId
  | none => pure ()
  if (← readAccountsList).isEmpty then
    deleteValue (.global .deviceKey)
    dropDeviceKey
    writeActiveAccount none

/-- The loop over the cached keys, which also comes to those that are added meanwhile. It goes on
as often as `rounds` allows, and then waits for ever. -/
def destroyEntries : Nat → Option Nat → StoreM Unit
  | 0, _ => do
    let nothing ← Async.await Command.never
    nomatch (nothing : Empty)
  | rounds + 1, after => do
    match ← Async.await (Command.nextEntry after) with
    | none => return
    | some (e : CacheEntry) =>
      destroyKey (some e.key)
      destroyEntries rounds (some e.serial)

def lockAllAccounts (rounds : Nat) : StoreM Unit := do
  destroyEntries rounds none
  let accounts ← readAccountsList
  accounts.forM fun account => deleteValue (.account account.accountId .lastBiometricAuth)
  refreshNativeViewNow

def setMasterUnlockKey (key : MasterKeyRef) (accountId : String) : StoreM Unit := setUnlockEntry accountId (some key)

def clearMasterUnlockKey (accountId : String) : StoreM Unit := setUnlockEntry accountId none

/-! ## Accounts, sessions and settings -/

/-- `initialize`, once the port has been. -/
def initializeStore : StoreM Unit := refreshNativeViewNow

def setActiveAccount (accountId : Option String) : StoreM Unit := do
  writeActiveAccount accountId
  match accountId with
  | none => return
  | some accountId =>
    let accounts ← readAccountsList
    if accounts.any (·.accountId = accountId) then
      let lastActiveAt ← now
      writeAccountsList (accounts.modify (accounts.findIdx (·.accountId = accountId)) ({ · with lastActiveAt := lastActiveAt }))

def findAccountByServerUser (normalizeAccountServerUrl : String → String) (accounts : List AccountMetadata)
    (serverUrl userId : String) : Option AccountMetadata :=
  accounts.find? fun a =>
    a.userId = userId ∧ normalizeAccountServerUrl a.serverUrl = normalizeAccountServerUrl serverUrl

/-- The id of `metadata` is that of the source, or generated by it. -/
def addAccount (normalizeAccountServerUrl : String → String) (metadata : AccountMetadata) : StoreM Unit := do
  let accounts ← readAccountsList
  let existing := (accounts.find? (·.accountId = metadata.accountId)).or
    (if metadata.serverUrl = "" ∨ metadata.userId = "" then none
    else findAccountByServerUser normalizeAccountServerUrl accounts metadata.serverUrl metadata.userId)
  let accountId := (existing.map (·.accountId)).getD metadata.accountId
  let stored : Option Bool ← readValue (.account accountId .biometricEnabled)
  let biometricEnabled := stored.getD metadata.biometricEnabled
  if stored = none then writeValue (.account accountId .biometricEnabled) biometricEnabled
  let next := { metadata with accountId := accountId, biometricEnabled := biometricEnabled }
  writeAccountsList
    (if existing.isSome then accounts.set (accounts.findIdx (·.accountId = accountId)) next else accounts ++ [next])

def setInsecureTransportConfirmed (accountId : String) (confirmed : Bool) : StoreM Unit := do
  let accounts ← readAccountsList
  if accounts.any (·.accountId = accountId) then
    writeAccountsList
      (accounts.modify (accounts.findIdx (·.accountId = accountId)) ({ · with insecureTransportConfirmed := some confirmed }))
  else Async.throw

def setBiometricEnabled (accountId : String) (enabled : Bool) : StoreM Unit := do
  writeValue (.account accountId .biometricEnabled) enabled
  let accounts ← readAccountsList
  if (accounts.find? (·.accountId = accountId)).any (·.biometricEnabled ≠ enabled) then
    writeAccountsList
      (accounts.modify (accounts.findIdx (·.accountId = accountId)) ({ · with biometricEnabled := enabled }))
  match ← getStoredSessionData accountId with
  | none => pure ()
  | some session =>
    if session.biometricEnabled ≠ enabled then
      writeValue (.account accountId .sessionData) ({ session with biometricEnabled := enabled } : StoredSessionData)
  refreshNativeViewNow

def enableBiometric (accountId : String) : StoreM Unit := do
  if ← isAvailable then setBiometricEnabled accountId true

def disableBiometric (accountId : String) : StoreM Unit := setBiometricEnabled accountId false

def storeSessionData (muk : MasterKeyRef) (accountId : String) (expiresAt : Option SessionExpiryInput) : StoreM Unit := do
  getDeviceKey
  let currentTime ← now
  let encryptedMasterUnlockKey ← wrapKey muk
  let biometricEnabled ← isBiometricEnabled accountId
  writeValue (.account accountId .sessionData)
    ({ encryptedMasterUnlockKey := encryptedMasterUnlockKey
       expiresAt := currentTime + DEFAULT_SESSION_EXPIRY_MS
       serverExpiresAt := some (resolveStoredSessionExpiryTimestamp expiresAt currentTime)
       createdAt := currentTime
       biometricEnabled := biometricEnabled
       lastMasterPasswordEntry := some currentTime } : StoredSessionData)

def updateStoredSessionMetadata (accountId : String) (expiresAt : Option SessionExpiryInput) : StoreM Unit := do
  match ← getStoredSessionData accountId with
  | none => return
  | some existing =>
    writeValue (.account accountId .sessionData)
      ({ existing with
        serverExpiresAt := some (resolveStoredSessionExpiryTimestamp expiresAt existing.createdAt) } : StoredSessionData)

def updateLastMasterPasswordEntry (accountId : String) : StoreM Unit := do
  match ← getStoredSessionData accountId with
  | none => return
  | some session =>
    writeValue (.account accountId .sessionData)
      ({ session with lastMasterPasswordEntry := some (← now) } : StoredSessionData)

def storeSecretKey (key accountId : String) : StoreM Unit := writeValue (.account accountId .secretKey) key

def storeAuthToken (token accountId : String) : StoreM Unit := writeValue (.account accountId .jwtToken) token

def storeVaultKeys (keys accountId : String) : StoreM Unit := writeValue (.account accountId .vaultKeys) keys

def storeEncryptedPrivateKey (key accountId : String) : StoreM Unit :=
  writeValue (.account accountId .encryptedPrivateKey) key

def storePinnedKdfProfile (profile accountId : String) : StoreM Unit :=
  writeValue (.account accountId .pinnedKdfParams) profile

def storeServerUrl (url accountId : String) : StoreM Unit := writeValue (.account accountId .serverUrl) url

def storeTravelModeCache (config accountId : String) : StoreM Unit :=
  writeValue (.account accountId .travelModeCache) config

def storeBackgroundTimestamp (timestamp accountId : String) : StoreM Unit :=
  writeValue (.account accountId .backgroundTimestamp) timestamp

def clearBackgroundTimestamp (accountId : String) : StoreM Unit := deleteValue (.account accountId .backgroundTimestamp)

def storeAutoLockTimeout (ms : Int) (accountId : String) : StoreM Unit := do
  writeValue (.account accountId .autoLockTimeout) ms
  refreshNativeViewNow

def storeMasterPasswordReentryPeriodMs (periodMs : Int) : StoreM Unit :=
  writeValue (.global .masterPasswordReentryPeriodMs) periodMs

/-- Whether it succeeded; which error it is otherwise is left out. -/
def authenticateWithBiometricEnhanced (accountId : String) : StoreM Bool := Async.orElse
  (do
    -- the hardware is there and enrolled
    if ← getDetails then
      if ← isBiometricEnabled accountId then
        if ← isSessionValid accountId then
          if ← isMasterPasswordReentryRequired accountId then return false
          else if ← authenticate then
            writeValue (.account accountId .lastBiometricAuth) (← now)
            deleteValue (.account accountId .backgroundTimestamp)
            return true
    return false)
  (return false)

end AccountStore

/-! ## The store -/

inductive StoreOp
  | initialization
  | setActiveAccount (accountId : Option String)
  | addAccount (metadata : AccountMetadata)
  | setInsecureTransportConfirmed (accountId : String) (confirmed : Bool)
  | removeAccount (accountId : String)
  | storeSessionData (muk : MasterKeyRef) (accountId : String) (expiresAt : Option SessionExpiryInput)
  | updateStoredSessionMetadata (accountId : String) (expiresAt : Option SessionExpiryInput)
  | tryRestoreSession (skipBiometric : Bool) (accountId : String)
  | tryRestoreSessionWithoutPrompt (accountId : String)
  | clearSession (accountId : String)
  | forgetSession (accountId : String)
  | clearAllStoredData (accountId : Option String)
  | setMasterUnlockKey (key : MasterKeyRef) (accountId : String)
  | clearMasterUnlockKey (accountId : String)
  | lockAllAccounts (rounds : Nat)
  | storeSecretKey (key accountId : String)
  | storeAuthToken (token accountId : String)
  | storeVaultKeys (keys accountId : String)
  | storeEncryptedPrivateKey (key accountId : String)
  | storePinnedKdfProfile (profile accountId : String)
  | storeServerUrl (url accountId : String)
  | storeTravelModeCache (config accountId : String)
  | storeBackgroundTimestamp (timestamp accountId : String)
  | clearBackgroundTimestamp (accountId : String)
  | storeAutoLockTimeout (ms : Int) (accountId : String)
  | storeMasterPasswordReentryPeriodMs (periodMs : Int)
  | updateLastMasterPasswordEntry (accountId : String)
  | setBiometricEnabled (accountId : String) (enabled : Bool)
  | enableBiometric (accountId : String)
  | disableBiometric (accountId : String)
  | authenticateWithBiometric (accountId : String)
  | authenticateWithBiometricEnhanced (accountId : String)
  | unlockWithBiometric (accountId : String)
  | unlockAllAccountsWithBiometric
deriving DecidableEq, Repr

namespace StoreOp

/-- The accounts that an operation may unlock. -/
def unlocks : StoreOp → String → Bool
  | .tryRestoreSession _ b, a | .tryRestoreSessionWithoutPrompt b, a | .setMasterUnlockKey _ b, a
  | .unlockWithBiometric b, a => a = b
  | .unlockAllAccountsWithBiometric, _ => true
  | _, _ => false

/-- The accounts that an operation is to lock. -/
def locks : StoreOp → String → Bool
  | .removeAccount b, a | .clearSession b, a | .forgetSession b, a | .clearAllStoredData (some b), a
  | .clearMasterUnlockKey b, a => a = b
  | .lockAllAccounts _, _ => true
  | _, _ => false

end StoreOp

namespace AccountStore

def program (normalizeAccountServerUrl : String → String) : StoreOp → StoreM Unit
  | .initialization => initializeStore
  | .setActiveAccount a => setActiveAccount a
  | .addAccount metadata => addAccount normalizeAccountServerUrl metadata
  | .setInsecureTransportConfirmed a confirmed => setInsecureTransportConfirmed a confirmed
  | .removeAccount a => removeAccountInternal a
  | .storeSessionData muk a expiresAt => storeSessionData muk a expiresAt
  | .updateStoredSessionMetadata a expiresAt => updateStoredSessionMetadata a expiresAt
  | .tryRestoreSession skipBiometric a => discard (tryRestoreSession skipBiometric a)
  | .tryRestoreSessionWithoutPrompt a => discard (tryRestoreSessionWithoutPrompt a)
  | .clearSession a => clearSession a
  | .forgetSession a => forgetSession a
  | .clearAllStoredData a => clearAllStoredData a
  | .setMasterUnlockKey key a => setMasterUnlockKey key a
  | .clearMasterUnlockKey a => clearMasterUnlockKey a
  | .lockAllAccounts rounds => lockAllAccounts rounds
  | .storeSecretKey key a => storeSecretKey key a
  | .storeAuthToken token a => storeAuthToken token a
  | .storeVaultKeys keys a => storeVaultKeys keys a
  | .storeEncryptedPrivateKey key a => storeEncryptedPrivateKey key a
  | .storePinnedKdfProfile profile a => storePinnedKdfProfile profile a
  | .storeServerUrl url a => storeServerUrl url a
  | .storeTravelModeCache config a => storeTravelModeCache config a
  | .storeBackgroundTimestamp timestamp a => storeBackgroundTimestamp timestamp a
  | .clearBackgroundTimestamp a => clearBackgroundTimestamp a
  | .storeAutoLockTimeout ms a => storeAutoLockTimeout ms a
  | .storeMasterPasswordReentryPeriodMs periodMs => storeMasterPasswordReentryPeriodMs periodMs
  | .updateLastMasterPasswordEntry a => updateLastMasterPasswordEntry a
  | .setBiometricEnabled a enabled => setBiometricEnabled a enabled
  | .enableBiometric a => enableBiometric a
  | .disableBiometric a => disableBiometric a
  | .authenticateWithBiometric a => discard (authenticateWithBiometric a)
  | .authenticateWithBiometricEnhanced a => discard (authenticateWithBiometricEnhanced a)
  | .unlockWithBiometric a => discard (unlockWithBiometric a)
  | .unlockAllAccountsWithBiometric => unlockAllAccountsWithBiometric

/-- An unlock operation is called: what it may unlock counts no longer as locked. -/
def started (op : StoreOp) (s : AccountStore) : AccountStore :=
  { s with
    locked := fun a => s.locked a && !op.unlocks a
    destined := match op with
      | .setMasterUnlockKey key a => Function.update s.destined key (some a)
      | _ => s.destined }

def settled (op : StoreOp) (r : Option Unit) (s : AccountStore) : AccountStore :=
  { s with
    locked := fun a => s.locked a || op.locks a
    initialized := s.initialized || (r.isSome && decide (op = .initialization))
    rejected := s.rejected || r.isNone }

/-- The clock goes on. -/
def tick (clock : Nat) (s : AccountStore) : Option AccountStore :=
  if s.clock ≤ clock then some { s with clock := clock } else none

/-- A process that has just started, with what is stored. -/
structure Initial (s : AccountStore) : Prop where
  mukCache : s.mukCache = []
  deviceKeyCache : s.deviceKeyCache = false
  destined : ∀ key, s.destined key = none
  owned : s.owned = []
  destroyed : s.destroyed = []
  locked : ∀ a, s.locked a = false
  initialized : s.initialized = false
  rejected : s.rejected = false

end AccountStore

def accountStore (normalizeAccountServerUrl : String → String) :
    Service AccountStore Command Command.Response PortAnswer StoreOp Unit Nat where
  perform := AccountStore.perform
  program := AccountStore.program normalizeAccountServerUrl
  started := AccountStore.started
  settled := AccountStore.settled
  other := AccountStore.tick

end Bittery
