/-
The vault session of the extension: the pure reducer that decides whether the vault is
locked and who owns it (`vault-session/transitions.ts`, with the vocabulary of `types.ts`).

Every event carries its own time. A time and a timeout are integers of any sign and any
order, since nothing checks them. The account ids of a restore and the identity in an
invalidation are read by nothing here and left out.
-/
import Mathlib.Data.List.Basic

namespace Bittery

/-- An opaque reference to key material behind the crypto port. -/
structure KeyRef where
  id : Nat
deriving DecidableEq, Repr

inductive VaultOwner
  | none
  | locally
  | desktop
deriving DecidableEq, Repr

inductive LockReason
  | manual
  | logout
  | timeout
  | desktopLocked
  | desktopDisconnected
  | sessionRevoked
  | neverUnlocked
deriving DecidableEq, Repr

/-- The text of a reason, where it is passed on as one. -/
def LockReason.text : LockReason → String
  | .manual => "manual"
  | .logout => "logout"
  | .timeout => "timeout"
  | .desktopLocked => "desktop_locked"
  | .desktopDisconnected => "desktop_disconnected"
  | .sessionRevoked => "session_revoked"
  | .neverUnlocked => "never_unlocked"

inductive RefusalCode
  | desktopOwnsLock
  | desktopOwnsUnlock
deriving DecidableEq, Repr

structure VaultSessionSnapshot where
  owner : VaultOwner
  unlocked : Bool
  desktopMode : Bool
  desktopConnected : Bool
  desktopLocked : Bool
  canLockLocally : Bool
  lastActivityAt : Int
  autoLockTimeoutMs : Int
  remainingMs : Option Int
  lockReason : Option LockReason
  revision : Nat
deriving DecidableEq, Repr

/-- What is known of the desktop app; a missing one is unreachable. -/
structure DesktopSnapshot where
  connected : Bool
  locked : Bool
  unlockedAccountIds : List String
  autoLockTimeoutMs : Option Int
deriving DecidableEq, Repr

inductive LockSource
  | popup
  | logout
  | internal
deriving DecidableEq, Repr

inductive VaultSessionEvent
  | boot
  | startupRestored (muk : Option KeyRef) (time : Int)
  | localUnlocked (muk : KeyRef) (time : Int)
  | desktopObserved (status : Option DesktopSnapshot) (time : Int)
  | desktopUnlockPushed (accountIds : List String) (time : Int)
  | desktopLockPushed (reason : String) (time : Int)
  | desktopClosed (time : Int)
  | activity (time : Int)
  | timeoutElapsed (time : Int)
  | timeoutSettingChanged (timeoutMs : Int) (time : Int)
  | lockRequested (source : LockSource) (time : Int)
  | sessionRevoked (sessionId : Option String) (reason : Option String) (time : Int)
  | sessionInvalidated (time : Int)
deriving DecidableEq, Repr

/-- When the event happened. `BOOT` carries no time, and nothing it causes needs one. -/
def VaultSessionEvent.time : VaultSessionEvent → Int
  | .boot => 0
  | .startupRestored _ time => time
  | .localUnlocked _ time => time
  | .desktopObserved _ time => time
  | .desktopUnlockPushed _ time => time
  | .desktopLockPushed _ time => time
  | .desktopClosed time => time
  | .activity time => time
  | .timeoutElapsed time => time
  | .timeoutSettingChanged _ time => time
  | .lockRequested _ time => time
  | .sessionRevoked _ _ time => time
  | .sessionInvalidated time => time

inductive VaultSessionBroadcast
  | desktopLocked (reason : String)
  | desktopUnlocked (accounts : List String)
  | vaultLocked (reason : LockReason)
  | sessionRevoked (reason : Option String)
deriving DecidableEq, Repr

inductive VaultSessionEffect
  | setLockIndicator (locked : Bool)
  | armAutoLock (delayMs : Int)
  | disarmAutoLock
  | startKeepalive
  | stopKeepalive
  | clearKeys (reason : LockReason)
  | invalidateSession (sessionId : Option String)
  | disconnectSync (reason : String) (suppressReconnect : Bool)
  | broadcast (message : VaultSessionBroadcast)
  | refuse (code : RefusalCode)
deriving DecidableEq, Repr

structure VaultSessionState where
  owner : VaultOwner
  desktopConnected : Bool
  desktopLocked : Bool
  lastActivityAt : Int
  lockReason : Option LockReason
  revision : Nat
  muk : Option KeyRef
  settingsTimeoutMs : Int
  desktopTimeoutMs : Option Int
  lastRevokedSessionId : Option String
deriving DecidableEq, Repr

def DEFAULT_SETTINGS_TIMEOUT_MS : Int := 10 * 60 * 1000

def createInitialState (settingsTimeoutMs : Int := DEFAULT_SETTINGS_TIMEOUT_MS) : VaultSessionState where
  owner := .none
  desktopConnected := false
  desktopLocked := false
  lastActivityAt := 0
  lockReason := none
  revision := 0
  muk := none
  settingsTimeoutMs := settingsTimeoutMs
  desktopTimeoutMs := none
  lastRevokedSessionId := none

namespace VaultSessionState

/-- The timeout in force; that of a connected desktop wins. -/
def resolveTimeoutMs (state : VaultSessionState) : Int :=
  if state.desktopConnected then state.desktopTimeoutMs.getD state.settingsTimeoutMs
  else state.settingsTimeoutMs

def projectSnapshot (state : VaultSessionState) (now : Int) : VaultSessionSnapshot :=
  let autoLockTimeoutMs := state.resolveTimeoutMs
  let unlocked := decide (state.owner ≠ .none)
  let desktopMode := decide (state.owner = .desktop)
  let countdownRuns := unlocked && !desktopMode && decide (autoLockTimeoutMs ≠ -1)
  { owner := state.owner
    unlocked := unlocked
    desktopMode := desktopMode
    desktopConnected := state.desktopConnected
    desktopLocked := state.desktopLocked
    canLockLocally := !state.desktopConnected
    lastActivityAt := state.lastActivityAt
    autoLockTimeoutMs := autoLockTimeoutMs
    remainingMs := if countdownRuns then some (max 0 (autoLockTimeoutMs - (now - state.lastActivityAt))) else none
    lockReason := state.lockReason
    revision := state.revision }

def hasChanged (a b : VaultSessionState) : Bool :=
  a.owner != b.owner ||
  a.desktopConnected != b.desktopConnected ||
  a.desktopLocked != b.desktopLocked ||
  a.lastActivityAt != b.lastActivityAt ||
  a.lockReason != b.lockReason ||
  a.muk != b.muk ||
  a.settingsTimeoutMs != b.settingsTimeoutMs ||
  a.desktopTimeoutMs != b.desktopTimeoutMs ||
  a.lastRevokedSessionId != b.lastRevokedSessionId

end VaultSessionState

structure ReduceResult where
  next : VaultSessionState
  effects : List VaultSessionEffect
deriving DecidableEq, Repr

/-- The revision is what callers tell a change by, so it moves only with one. -/
def commit (prev next : VaultSessionState) (effects : List VaultSessionEffect) : ReduceResult :=
  if prev.hasChanged next then { next := { next with revision := prev.revision + 1 }, effects := effects }
  else { next := prev, effects := effects }

def ownershipEffects (state : VaultSessionState) (now : Int) : List VaultSessionEffect :=
  match state.owner with
  | .none => []
  -- the desktop app owns its own timeout
  | .desktop => [.disarmAutoLock, .startKeepalive]
  | .locally =>
    let timeoutMs := state.resolveTimeoutMs
    if timeoutMs = -1 then [.disarmAutoLock, .startKeepalive]
    else [.armAutoLock (max 0 (timeoutMs - (now - state.lastActivityAt))), .startKeepalive]

structure DisconnectSync where
  reason : String
  suppressReconnect : Bool
deriving DecidableEq, Repr

structure LockOptions where
  broadcast : Option VaultSessionBroadcast := none
  disconnectSync : Option DisconnectSync := none
deriving DecidableEq, Repr

/-- Lifetime effects first and the destruction of the keys last. -/
def lockEffects (reason : LockReason) (options : LockOptions) : List VaultSessionEffect :=
  [.setLockIndicator true, .disarmAutoLock, .stopKeepalive] ++
  (options.disconnectSync.map fun d => VaultSessionEffect.disconnectSync d.reason d.suppressReconnect).toList ++
  [.broadcast (options.broadcast.getD (.vaultLocked reason)), .clearKeys reason]

def lockTransition (prev base : VaultSessionState) (reason : LockReason) (options : LockOptions := {}) :
    ReduceResult :=
  if base.owner = .none then commit prev base []
  else
    commit prev { base with owner := .none, muk := none, lastActivityAt := 0, lockReason := some reason }
      (lockEffects reason options)

/-- A desktop that is reachable but locked outranks the local state. -/
def unlockLocally (state : VaultSessionState) (muk : KeyRef) (time : Int) : ReduceResult :=
  if state.desktopConnected && state.desktopLocked then commit state state [.refuse .desktopOwnsUnlock]
  else
    let next := { state with owner := .locally, muk := some muk, lastActivityAt := time, lockReason := none }
    commit state next (.setLockIndicator false :: ownershipEffects next time)

/-- What a revocation does: it outranks the desktop, and ends the server session of a vault
that is locked already. -/
def revocationEffects (wasUnlocked : Bool) (sessionId reason : Option String) : List VaultSessionEffect :=
  (if wasUnlocked then [.setLockIndicator true, .disarmAutoLock, .stopKeepalive] else []) ++
  [.disconnectSync "session_revoked" true, .broadcast (.sessionRevoked reason)] ++
  (if wasUnlocked then [.clearKeys .sessionRevoked] else []) ++
  [.invalidateSession sessionId]

/-- `DESKTOP_OBSERVED`. -/
def observeDesktop (state : VaultSessionState) (status : Option DesktopSnapshot) (time : Int) : ReduceResult :=
  let connected := status.any (·.connected)
  let desktopLocked := connected && status.any (·.locked)
  let desktopTimeoutMs := if connected then status.bind (·.autoLockTimeoutMs) else none
  if connected = state.desktopConnected ∧ desktopLocked = state.desktopLocked ∧
      desktopTimeoutMs = state.desktopTimeoutMs then
    commit state state []
  else
    let base := { state with
      desktopConnected := connected, desktopLocked := desktopLocked, desktopTimeoutMs := desktopTimeoutMs }
    if desktopLocked then lockTransition state base .desktopLocked
    else if connected = false ∧ state.owner = .desktop then lockTransition state base .desktopDisconnected
    else commit state base (ownershipEffects base time)

def reduce (state : VaultSessionState) : VaultSessionEvent → ReduceResult
  | .boot => commit state state [.setLockIndicator (decide (state.owner = .none))]
  | .startupRestored muk time =>
    -- a restore speaks for a cold worker only
    if state.owner ≠ .none then commit state state []
    else
      match muk with
      | none =>
        commit state { state with lockReason := state.lockReason.or (some .neverUnlocked) } [.setLockIndicator true]
      | some muk => unlockLocally state muk time
  | .localUnlocked muk time => unlockLocally state muk time
  | .desktopObserved status time => observeDesktop state status time
  | .desktopUnlockPushed accountIds time =>
    commit state
      { state with owner := .desktop, muk := none, desktopConnected := true, desktopLocked := false,
                   lastActivityAt := time, lockReason := none }
      [.setLockIndicator false, .disarmAutoLock, .startKeepalive, .broadcast (.desktopUnlocked accountIds)]
  | .desktopLockPushed reason _ =>
    lockTransition state { state with desktopConnected := true, desktopLocked := true } .desktopLocked
      { broadcast := some (.desktopLocked reason) }
  | .desktopClosed time =>
    let base := { state with desktopConnected := false, desktopLocked := false, desktopTimeoutMs := none }
    if state.owner = .desktop then lockTransition state base .desktopDisconnected
    else commit state base (ownershipEffects base time)
  | .activity time =>
    let next := { state with lastActivityAt := time }
    match state.owner with
    -- activity never opens a locked vault
    | .none => commit state state []
    | .desktop => commit state next []
    | .locally => commit state next (ownershipEffects next time)
  | .timeoutElapsed time =>
    if state.owner ≠ .locally then commit state state []
    else if state.resolveTimeoutMs ≠ -1 ∧ time - state.lastActivityAt ≥ state.resolveTimeoutMs then
      lockTransition state state .timeout
    else commit state state (ownershipEffects state time)
  | .timeoutSettingChanged timeoutMs time =>
    let next := { state with settingsTimeoutMs := timeoutMs }
    if timeoutMs = state.settingsTimeoutMs then commit state state []
    else commit state next (ownershipEffects next time)
  | .lockRequested source _ =>
    -- a refused lock leaves the sync alone
    if source = .popup ∧ state.desktopConnected then commit state state [.refuse .desktopOwnsLock]
    else
      let reason := if source = .logout then LockReason.logout else LockReason.manual
      lockTransition state state reason { disconnectSync := some ⟨reason.text, false⟩ }
  | .sessionRevoked sessionId reason _ =>
    if sessionId ≠ none ∧ sessionId = state.lastRevokedSessionId then commit state state []
    else
      commit state
        { state with owner := .none, muk := none, lastActivityAt := 0, lockReason := some .sessionRevoked,
                     lastRevokedSessionId := sessionId }
        (revocationEffects (decide (state.owner ≠ .none)) sessionId reason)
  | .sessionInvalidated _ =>
    lockTransition state state .sessionRevoked
      { disconnectSync := some ⟨"session_invalidated", true⟩, broadcast := some (.sessionRevoked none) }

/-! ## What the effects do to the service worker -/

/-- An armed auto-lock. -/
structure AutoLock where
  armedAt : Int
  delayMs : Int
deriving DecidableEq, Repr

def AutoLock.deadline (a : AutoLock) : Int := a.armedAt + a.delayMs

/-- What the chrome port keeps: the timer with its alarm, the keepalive, and whether the
icon shows a locked vault. -/
structure ChromeSession where
  autoLock : Option AutoLock := none
  keepalive : Bool := false
  lockIndicator : Bool := true
deriving DecidableEq, Repr

/-- One effect, run at the time of its event. Arming again replaces the deadline. -/
def ChromeSession.runEffect (now : Int) (c : ChromeSession) : VaultSessionEffect → ChromeSession
  | .setLockIndicator locked => { c with lockIndicator := locked }
  | .armAutoLock delayMs => { c with autoLock := some ⟨now, delayMs⟩ }
  | .disarmAutoLock => { c with autoLock := none }
  | .startKeepalive => { c with keepalive := true }
  | .stopKeepalive => { c with keepalive := false }
  | _ => c

def ChromeSession.runEffects (c : ChromeSession) (now : Int) (effects : List VaultSessionEffect) : ChromeSession :=
  effects.foldl (·.runEffect now) c

/-- The state cell, and the service worker its effects have acted on. -/
structure VaultSession where
  state : VaultSessionState
  chrome : ChromeSession
deriving DecidableEq, Repr

def VaultSession.initial (settingsTimeoutMs : Int) : VaultSession := ⟨createInitialState settingsTimeoutMs, {}⟩

def VaultSession.apply (s : VaultSession) (event : VaultSessionEvent) : VaultSession where
  state := (reduce s.state event).next
  chrome := s.chrome.runEffects event.time (reduce s.state event).effects

/-- `getSnapshot`: a read observes the desktop as it was last seen, and a deadline that has
passed, before it answers. The clock is read three times. -/
def VaultSession.getSnapshot (s : VaultSession) (observed : Option DesktopSnapshot) (t₁ t₂ t₃ : Int) :
    VaultSession × VaultSessionSnapshot :=
  let connected := observed.any (·.connected)
  let locked := connected && observed.any (·.locked)
  let timeoutMs := if connected then observed.bind (·.autoLockTimeoutMs) else none
  let s :=
    if connected ≠ s.state.desktopConnected ∨ locked ≠ s.state.desktopLocked ∨ timeoutMs ≠ s.state.desktopTimeoutMs
    then s.apply (.desktopObserved observed t₁) else s
  let s := if (s.state.projectSnapshot t₂).remainingMs = some 0 then s.apply (.timeoutElapsed t₂) else s
  (s, s.state.projectSnapshot t₃)

/-- The session after a sequence of events. -/
def VaultSession.after (settingsTimeoutMs : Int) (events : List VaultSessionEvent) : VaultSession :=
  events.foldl VaultSession.apply (.initial settingsTimeoutMs)

end Bittery
