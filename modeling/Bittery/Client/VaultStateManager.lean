/-
The master unlock key on Android: `state/VaultStateManager.kt` over `state/SecureMukStore.kt`.

What a call does with one user is a function of that user's entries in the maps and in the preferences. Every call
holds the lock, has one time and gets its user id normalized (a blank one is `default`). Keys have 32 bytes, and
what is encrypted can be decrypted again. The entries that are only logged are left out.
-/
import Bittery.Lib.Runs
import Mathlib.Logic.Function.Basic

open Lib

namespace Bittery.VaultStateManager

/-- `Long.MAX_VALUE`, which as an expiry is "never". -/
def MAX_VALUE : Int := 9223372036854775807

def DEFAULT_AUTO_LOCK_TIMEOUT_MS : Int := 10 * 60 * 1000

def calculateExpiresAt (setAt timeoutMs : Int) : Int :=
  if timeoutMs < 0 then MAX_VALUE
  else if timeoutMs > MAX_VALUE - setAt then MAX_VALUE else setAt + timeoutMs

def isExpired (expiresAt now : Int) : Bool := expiresAt ≠ MAX_VALUE && expiresAt ≤ now

structure StoredMukMetadata where
  setAt : Int
  expiresAt : Int

/-- The entries of one user: those of the maps, and those of the preferences under `enc_` with `iv_` (the key),
`set_at_`, `expires_at_` and `timeout_ms_`. -/
structure Entries where
  masterUnlockKey : Option (List UInt8)
  mukSetTimestamp : Option Int
  mukExpiresAtTimestamp : Option Int
  mukAutoLockTimeout : Option Int
  enc : Option (List UInt8)
  setAt : Option Int
  expiresAt : Option Int
  timeoutMs : Option Int
deriving DecidableEq

namespace Entries

def empty : Entries := ⟨none, none, none, none, none, none, none, none⟩

variable (e : Entries) (store : Bool) (now : Int)

/-! ## The secure store -/

def storeMuk (muk : List UInt8) (timeoutMs setAt : Int) : Entries :=
  { e with enc := some muk, setAt := some setAt, expiresAt := some (calculateExpiresAt setAt timeoutMs) }

def clearMuk : Entries := { e with enc := none, setAt := none, expiresAt := none }

/-- A time that is missing reads as 0. -/
def getMetadata : Option StoredMukMetadata :=
  if e.setAt.getD 0 = 0 ∨ e.expiresAt.getD 0 = 0 then none else some ⟨e.setAt.getD 0, e.expiresAt.getD 0⟩

def hasValidMuk : Bool × Entries :=
  match e.getMetadata with
  | none => (false, e)
  | some metadata => if isExpired metadata.expiresAt now then (false, e.clearMuk) else (e.enc.isSome, e)

def getMuk : Option (List UInt8) × Entries :=
  match e.enc, e.getMetadata with
  | some muk, some metadata => if isExpired metadata.expiresAt now then (none, e.clearMuk) else (some muk, e)
  | _, _ => (none, e)

def updateTimeout (timeoutMs : Int) : Option Int × Entries :=
  match e.getMetadata with
  | none => (none, e)
  | some metadata =>
    let expiresAt := calculateExpiresAt metadata.setAt timeoutMs
    (some expiresAt, { e with expiresAt := some expiresAt })

/-! ## The manager; `store` says whether it has been initialized -/

def getResolvedTimeoutLocked : Int × Entries :=
  match e.mukAutoLockTimeout with
  | some timeoutMs => (timeoutMs, e)
  | none =>
    match if store then e.timeoutMs else none with
    | some timeoutMs => (timeoutMs, { e with mukAutoLockTimeout := some timeoutMs })
    | none => (DEFAULT_AUTO_LOCK_TIMEOUT_MS, e)

def cacheMukLocked (muk : List UInt8) (setAt expiresAt : Int) : Entries :=
  { e with masterUnlockKey := some muk, mukSetTimestamp := some setAt, mukExpiresAtTimestamp := some expiresAt }

def clearMukLocked (clearPersistent : Bool) : Entries :=
  let e := { e with masterUnlockKey := none, mukSetTimestamp := none, mukExpiresAtTimestamp := none }
  if clearPersistent && store then e.clearMuk else e

def pruneExpiredLocked : Entries :=
  match e.mukExpiresAtTimestamp with
  | none => e
  | some expiresAt => if isExpired expiresAt now then e.clearMukLocked store true else e

def restoreMukFromSecureStoreLocked : Option (List UInt8) × Entries :=
  if store then
    match e.hasValidMuk now with
    | (false, e) => (none, e)
    | (true, e) =>
      match e.getMetadata with
      | none => (none, e)
      | some metadata =>
        if isExpired metadata.expiresAt now then (none, e.clearMuk.clearMukLocked store false)
        else
          match e.getMuk now with
          | (none, e) => (none, e)
          | (some restoredMuk, e) => (some restoredMuk, e.cacheMukLocked restoredMuk metadata.setAt metadata.expiresAt)
  else (none, e)

def setMukAutoLockTimeout (timeoutMs : Int) : Entries :=
  let e := { e with
    mukAutoLockTimeout := some timeoutMs, timeoutMs := if store then some timeoutMs else e.timeoutMs }
  match e.mukSetTimestamp with
  | some setAt =>
    let expiresAt := calculateExpiresAt setAt timeoutMs
    let e := { e with mukExpiresAtTimestamp := some expiresAt }
    if isExpired expiresAt now then e.clearMukLocked store true
    else
      match e.masterUnlockKey with
      | some muk => if store then e.storeMuk muk timeoutMs setAt else e
      | none => e
  | none =>
    if store then
      match e.updateTimeout timeoutMs with
      | (some persistedExpiry, e) => if isExpired persistedExpiry now then e.clearMuk else e
      | (none, e) => e
    else e

/-- The write to the keystore may fail, once the key is in the maps. -/
def setMasterUnlockKey (muk : List UInt8) (fails : Bool) : Entries :=
  let (timeoutMs, e) := e.getResolvedTimeoutLocked store
  let e := e.cacheMukLocked muk now (calculateExpiresAt now timeoutMs)
  if store && !fails then e.storeMuk muk timeoutMs now else e

def getMasterUnlockKey : Option (List UInt8) × Entries :=
  let e := e.pruneExpiredLocked store now
  match e.masterUnlockKey with
  | some muk => (some muk, e)
  | none => e.restoreMukFromSecureStoreLocked store now

def isUnlocked : Bool × Entries :=
  let e := e.pruneExpiredLocked store now
  let inMemory := e.masterUnlockKey.isSome
  let (inStore, e) := if store then e.hasValidMuk now else (false, e)
  (inMemory || inStore, e)

/-- A new process. -/
def restart : Entries :=
  { e with masterUnlockKey := none, mukSetTimestamp := none, mukExpiresAtTimestamp := none, mukAutoLockTimeout := none }

end Entries

/-- The users, whether the process has a store, and the time of the last call; besides, what the callers know: the
last key set and not cleared since, with its time, and the last timeout configured. -/
structure State where
  users : String → Entries
  store : Bool
  clock : Int
  latest : String → Option (List UInt8 × Int)
  configured : String → Option Int

inductive Op where
  | initializeStore
  | setMasterUnlockKey (userId : String) (muk : List UInt8) (fails : Bool)
  | clearMasterUnlockKey (userId : String)
  | clearAllMasterUnlockKeys
  | setMukAutoLockTimeout (userId : String) (timeoutMs : Int)
  | getMasterUnlockKey (userId : String)
  | isUnlocked (userId : String)
  | restart

namespace State

def init : State := ⟨fun _ => .empty, false, 1, fun _ => none, fun _ => none⟩

def timeout (s : State) (userId : String) : Int := (s.configured userId).getD DEFAULT_AUTO_LOCK_TIMEOUT_MS

/-- A call that reads prunes every user. -/
def read (s : State) (now : Int) (userId : String) (f : Entries → Entries) : State :=
  let users := fun u => (s.users u).pruneExpiredLocked s.store now
  { s with users := Function.update users userId (f (s.users userId)) }

def exec (s : State) (now : Int) : Op → State
  | .initializeStore => { s with store := true }
  | .setMasterUnlockKey userId muk fails =>
    { s with
      users := Function.update s.users userId ((s.users userId).setMasterUnlockKey s.store now muk fails)
      latest := Function.update s.latest userId (some (muk, now)) }
  | .clearMasterUnlockKey userId =>
    { s with
      users := Function.update s.users userId ((s.users userId).clearMukLocked s.store true)
      latest := Function.update s.latest userId none }
  | .clearAllMasterUnlockKeys =>
    -- Clearing the maps of a user who is in none of them does nothing.
    { s with
      users := fun u =>
        let e := (s.users u).clearMukLocked s.store false
        if s.store then e.clearMuk else e
      latest := fun _ => none }
  | .setMukAutoLockTimeout userId timeoutMs =>
    { s with
      users := Function.update s.users userId ((s.users userId).setMukAutoLockTimeout s.store now timeoutMs)
      configured := Function.update s.configured userId (some timeoutMs) }
  | .getMasterUnlockKey userId => s.read now userId fun e => (e.getMasterUnlockKey s.store now).2
  | .isUnlocked userId => s.read now userId fun e => (e.isUnlocked s.store now).2
  | .restart => { s with users := fun u => (s.users u).restart, store := false }

/-- Calls come at times that do not decrease. -/
def step (s : State) (a : Int × Op) : Option State :=
  if s.clock ≤ a.1 ∧ a.1 < MAX_VALUE then some { s.exec a.1 a.2 with clock := a.1 } else none

end State

def system : System State (Int × Op) := ⟨(· = .init), State.step⟩

/-! ## What the entries say of the latest set -/

theorem bound_of_isExpired {setAt timeoutMs now : Int} (hnow : now < MAX_VALUE)
    (h : isExpired (calculateExpiresAt setAt timeoutMs) now = false) : timeoutMs < 0 ∨ now < setAt + timeoutMs := by
  simp only [isExpired, Bool.and_eq_false_imp, decide_eq_true_eq, decide_eq_false_iff_not] at h
  unfold calculateExpiresAt at h
  split_ifs at h <;> omega

theorem calculateExpiresAt_pos {setAt timeoutMs : Int} (h : 0 < setAt) : 0 < calculateExpiresAt setAt timeoutMs := by
  simp only [calculateExpiresAt, MAX_VALUE]
  split_ifs <;> omega

/-- There is no key, or it is the latest one, with its time and the expiry that this gives. -/
def Holds (latest : Option (List UInt8 × Int)) (timeoutMs : Int) (muk : Option (List UInt8)) (setAt expiresAt : Option Int) :
    Prop :=
  muk = none ∧ setAt = none ∧ expiresAt = none ∨
    ∃ key time, 0 < time ∧ latest = some (key, time) ∧ muk = some key ∧ setAt = some time ∧
      expiresAt = some (calculateExpiresAt time timeoutMs)

theorem holds_none {latest : Option (List UInt8 × Int)} {timeoutMs : Int} : Holds latest timeoutMs none none none :=
  .inl ⟨rfl, rfl, rfl⟩

namespace Entries

structure Agrees (e : Entries) (latest : Option (List UInt8 × Int)) (configured : Option Int) : Prop where
  memory : Holds latest (configured.getD DEFAULT_AUTO_LOCK_TIMEOUT_MS) e.masterUnlockKey e.mukSetTimestamp
    e.mukExpiresAtTimestamp
  stored : Holds latest (configured.getD DEFAULT_AUTO_LOCK_TIMEOUT_MS) e.enc e.setAt e.expiresAt
  runtime : ∀ timeoutMs ∈ e.mukAutoLockTimeout, configured = some timeoutMs
  persisted : e.timeoutMs = configured

variable {e : Entries} {store : Bool} {now : Int} {latest : Option (List UInt8 × Int)} {configured : Option Int}

theorem getMetadata_of_none (h : e.setAt = none) : e.getMetadata = none := by simp [getMetadata, h]

theorem getMetadata_of_some {time expiresAt : Int} (htime : 0 < time) (hexpiry : 0 < expiresAt) (h : e.setAt = some time)
    (h' : e.expiresAt = some expiresAt) : e.getMetadata = some ⟨time, expiresAt⟩ := by
  have hne := htime.ne'
  have hne' := hexpiry.ne'
  simp [getMetadata, h, h', hne, hne']

theorem restore_of_none (h : e.getMetadata = none) : e.restoreMukFromSecureStoreLocked store now = (none, e) := by
  simp [restoreMukFromSecureStoreLocked, hasValidMuk, h]

theorem restore_of_some {metadata : StoredMukMetadata} {key : List UInt8} (h : e.getMetadata = some metadata)
    (hkey : e.enc = some key) : e.restoreMukFromSecureStoreLocked true now =
      if isExpired metadata.expiresAt now then (none, e.clearMuk)
      else (some key, e.cacheMukLocked key metadata.setAt metadata.expiresAt) := by
  cases hexpired : isExpired metadata.expiresAt now <;>
    simp [restoreMukFromSecureStoreLocked, hasValidMuk, getMuk, h, hkey, hexpired]

/-- **A user is unlocked** exactly when there is a key to get. -/
theorem isUnlocked_eq (e : Entries) (store : Bool) (now : Int) :
    (e.isUnlocked store now).1 = (e.getMasterUnlockKey store now).1.isSome := by
  simp only [isUnlocked, getMasterUnlockKey]
  generalize e.pruneExpiredLocked store now = e
  cases hkey : e.masterUnlockKey with
  | some muk => simp
  | none =>
    cases store with
    | false => simp [restoreMukFromSecureStoreLocked]
    | true =>
      cases hmeta : e.getMetadata with
      | none => simp [restore_of_none hmeta, hasValidMuk, hmeta]
      | some metadata =>
        cases henc : e.enc with
        | none =>
          cases hexpired : isExpired metadata.expiresAt now <;>
            simp [restoreMukFromSecureStoreLocked, hasValidMuk, hmeta, henc, hexpired]
        | some key =>
          rw [restore_of_some hmeta henc]
          cases hexpired : isExpired metadata.expiresAt now <;> simp [hasValidMuk, hmeta, henc, hexpired]

theorem Agrees.clearMuk (h : e.Agrees latest configured) : e.clearMuk.Agrees latest configured :=
  { h with stored := holds_none }

theorem Agrees.clearMukLocked (h : e.Agrees latest configured) (clearPersistent : Bool) :
    (e.clearMukLocked store clearPersistent).Agrees latest configured := by
  unfold Entries.clearMukLocked
  split
  · exact ⟨holds_none, holds_none, h.runtime, h.persisted⟩
  · exact { h with memory := holds_none }

theorem Agrees.pruneExpiredLocked (h : e.Agrees latest configured) (store : Bool) (now : Int) :
    (e.pruneExpiredLocked store now).Agrees latest configured := by
  unfold Entries.pruneExpiredLocked
  split
  · exact h
  · split
    · exact h.clearMukLocked true
    · exact h

/-- What a restore finds, and what it leaves. -/
theorem Agrees.restore (h : e.Agrees latest configured) (hnow : now < MAX_VALUE) :
    (e.restoreMukFromSecureStoreLocked store now).2.Agrees latest configured ∧
      ∀ muk ∈ (e.restoreMukFromSecureStoreLocked store now).1, ∃ setAt, latest = some (muk, setAt) ∧
        (configured.getD DEFAULT_AUTO_LOCK_TIMEOUT_MS < 0 ∨ now < setAt + configured.getD DEFAULT_AUTO_LOCK_TIMEOUT_MS) := by
  cases store with
  | false => exact ⟨h, by simp [restoreMukFromSecureStoreLocked]⟩
  | true =>
    obtain ⟨hnone, hset, -⟩ | ⟨key, time, hpos, hlatest, henc, hset, hexpiry⟩ := h.stored
    · rw [restore_of_none (getMetadata_of_none hset)]
      exact ⟨h, by simp⟩
    · rw [restore_of_some (getMetadata_of_some hpos (calculateExpiresAt_pos hpos) hset hexpiry) henc]
      split
      · exact ⟨h.clearMuk, by simp⟩
      · next hexpired =>
        refine ⟨{ h with memory := .inr ⟨key, time, hpos, hlatest, rfl, rfl, rfl⟩ }, fun muk hmuk => ?_⟩
        cases hmuk
        exact ⟨time, hlatest, bound_of_isExpired hnow (Bool.eq_false_iff.2 hexpired)⟩

theorem Agrees.getMasterUnlockKey (h : e.Agrees latest configured) (hnow : now < MAX_VALUE) :
    (e.getMasterUnlockKey store now).2.Agrees latest configured ∧
      ∀ muk ∈ (e.getMasterUnlockKey store now).1, ∃ setAt, latest = some (muk, setAt) ∧
        (configured.getD DEFAULT_AUTO_LOCK_TIMEOUT_MS < 0 ∨ now < setAt + configured.getD DEFAULT_AUTO_LOCK_TIMEOUT_MS) := by
  have hpruned := h.pruneExpiredLocked store now
  simp only [Entries.getMasterUnlockKey]
  cases hkey : (e.pruneExpiredLocked store now).masterUnlockKey with
  | none => exact hpruned.restore hnow
  | some muk =>
    refine ⟨hpruned, fun muk' hmuk => ?_⟩
    cases hmuk
    obtain ⟨hnone, -, hexpiry⟩ | ⟨key, time, hpos, hlatest, hkey', hset, hexpiry⟩ := h.memory
    · simp [Entries.pruneExpiredLocked, hexpiry, hnone] at hkey
    · cases hexpired : isExpired (calculateExpiresAt time (configured.getD DEFAULT_AUTO_LOCK_TIMEOUT_MS)) now with
      | true =>
        simp only [Entries.pruneExpiredLocked, hexpiry, hexpired, if_true, Entries.clearMukLocked] at hkey
        split at hkey <;> cases hkey
      | false =>
        simp [Entries.pruneExpiredLocked, hexpiry, hexpired, hkey'] at hkey
        exact ⟨time, hkey ▸ hlatest, bound_of_isExpired hnow hexpired⟩

theorem Agrees.isUnlocked (h : e.Agrees latest configured) : (e.isUnlocked store now).2.Agrees latest configured := by
  have hpruned := h.pruneExpiredLocked store now
  simp only [Entries.isUnlocked]
  cases store with
  | false => exact hpruned
  | true =>
    simp only [if_true, hasValidMuk]
    split
    · exact hpruned
    · split
      · exact hpruned.clearMuk
      · exact hpruned

theorem Agrees.setMasterUnlockKey (h : e.Agrees latest configured) (muk : List UInt8) {fails : Bool} (hpos : 0 < now)
    (hmeets : store = true ∧ fails = false ∨ e.enc = none ∧ (store = true ∨ e.timeoutMs = none)) :
    (e.setMasterUnlockKey store now muk fails).Agrees (some (muk, now)) configured := by
  have hresolved : (e.getResolvedTimeoutLocked store).1 = configured.getD DEFAULT_AUTO_LOCK_TIMEOUT_MS ∧
      (e.getResolvedTimeoutLocked store).2.Agrees latest configured ∧ (e.getResolvedTimeoutLocked store).2.enc = e.enc := by
    unfold getResolvedTimeoutLocked
    split
    · next timeoutMs hruntime => exact ⟨by simp [h.runtime timeoutMs hruntime], h, rfl⟩
    · split
      · next timeoutMs hread =>
        have hconfigured : configured = some timeoutMs := by
          rw [← h.persisted]
          split at hread
          · exact hread
          · cases hread
        refine ⟨by simp [hconfigured], { h with runtime := fun t ht => ?_ }, rfl⟩
        exact hconfigured.trans ht
      · next hread =>
        have hconfigured : e.timeoutMs = none := by
          obtain ⟨rfl, -⟩ | ⟨-, rfl | hnone⟩ := hmeets
          · exact hread
          · exact hread
          · exact hnone
        exact ⟨by simp [← h.persisted, hconfigured], h, rfl⟩
  obtain ⟨htimeout, hagrees, henc⟩ := hresolved
  have hmemory : Holds (some (muk, now)) (configured.getD DEFAULT_AUTO_LOCK_TIMEOUT_MS) (some muk) (some now)
      (some (calculateExpiresAt now (e.getResolvedTimeoutLocked store).1)) :=
    .inr ⟨muk, now, hpos, rfl, rfl, rfl, by rw [htimeout]⟩
  simp only [Entries.setMasterUnlockKey]
  split
  · exact ⟨hmemory, hmemory, hagrees.runtime, hagrees.persisted⟩
  · next hunwritten =>
    -- Nothing of this user is in the store.
    have hnone : (e.getResolvedTimeoutLocked store).2.enc = none := by
      rw [henc]
      exact (hmeets.resolve_left fun hwrites => hunwritten (by simp [hwrites])).1
    refine ⟨hmemory, .inl ?_, hagrees.runtime, hagrees.persisted⟩
    obtain hblank | ⟨key, time, -, -, hkey, -⟩ := hagrees.stored
    · exact hblank
    · cases hnone.symm.trans hkey

theorem Agrees.setMukAutoLockTimeout (h : e.Agrees latest configured) (now timeoutMs : Int) :
    (e.setMukAutoLockTimeout true now timeoutMs).Agrees latest (some timeoutMs) := by
  have hruntime : ∀ t ∈ some timeoutMs, some timeoutMs = some t := fun t ht => ht
  obtain ⟨hmemory, hstored, -, -⟩ := h
  obtain ⟨muk, mukSetTimestamp, mukExpiresAtTimestamp, runtime, enc, setAt, expiresAt, persisted⟩ := e
  obtain ⟨rfl, rfl, rfl⟩ | ⟨key, time, hpos, hlatest, rfl, rfl, rfl⟩ := hmemory
  · obtain ⟨rfl, rfl, rfl⟩ | ⟨key, time, hpos, hlatest, rfl, rfl, rfl⟩ := hstored
    · exact ⟨holds_none, holds_none, hruntime, rfl⟩
    · have hmetadata := @getMetadata_of_some ⟨none, none, none, some timeoutMs, some key, some time,
        some (calculateExpiresAt time (configured.getD DEFAULT_AUTO_LOCK_TIMEOUT_MS)), some timeoutMs⟩ time _ hpos
        (calculateExpiresAt_pos hpos) rfl rfl
      simp only [Entries.setMukAutoLockTimeout, if_true, updateTimeout, hmetadata]
      split
      · exact ⟨holds_none, holds_none, hruntime, rfl⟩
      · exact ⟨holds_none, .inr ⟨key, time, hpos, hlatest, rfl, rfl, rfl⟩, hruntime, rfl⟩
  · simp only [Entries.setMukAutoLockTimeout, if_true]
    split
    · exact ⟨holds_none, holds_none, hruntime, rfl⟩
    · exact ⟨.inr ⟨key, time, hpos, hlatest, rfl, rfl, rfl⟩, .inr ⟨key, time, hpos, hlatest, rfl, rfl, rfl⟩, hruntime, rfl⟩

theorem Agrees.restart (h : e.Agrees latest configured) : e.restart.Agrees latest configured :=
  ⟨holds_none, h.stored, by simp [Entries.restart], h.persisted⟩

theorem Agrees.cleared (h : e.Agrees latest configured) (store : Bool) (henc : e.enc = none) :
    (e.clearMukLocked store false).Agrees none configured := by
  refine ⟨holds_none, .inl ?_, h.runtime, h.persisted⟩
  obtain hblank | ⟨key, time, -, -, hkey, -⟩ := h.stored
  · exact hblank
  · cases henc.symm.trans hkey

theorem Agrees.clearMasterUnlockKey (h : e.Agrees latest configured) (hmeets : store = true ∨ e.enc = none) :
    (e.clearMukLocked store true).Agrees none configured := by
  cases store with
  | true => exact ⟨holds_none, holds_none, h.runtime, h.persisted⟩
  | false => exact h.cleared false (hmeets.resolve_left Bool.false_ne_true)

end Entries

/-! ## Runs -/

namespace State

/-- Keys and timeouts are changed where there is a store to change them in, or nothing of the user in it, and a write
to the keystore fails only where there is no older key to stay. -/
def Meets (s : State) (a : Int × Op) : Prop :=
  match a.2 with
  | .setMasterUnlockKey userId _ fails =>
    s.store = true ∧ fails = false ∨
      (s.users userId).enc = none ∧ (s.store = true ∨ (s.users userId).timeoutMs = none)
  | .clearMasterUnlockKey userId => s.store = true ∨ (s.users userId).enc = none
  | .clearAllMasterUnlockKeys => s.store = true ∨ ∀ userId, (s.users userId).enc = none
  | .setMukAutoLockTimeout _ _ => s.store = true
  | _ => True

structure Sound (s : State) : Prop where
  clock : 0 < s.clock
  users : ∀ u, (s.users u).Agrees (s.latest u) (s.configured u)

variable {s : State}

theorem Sound.update (h : s.Sound) (userId : String) {e : Entries} {x : Option (List UInt8 × Int)} {c : Option Int}
    (he : e.Agrees x c) (u : String) :
    (Function.update s.users userId e u).Agrees (Function.update s.latest userId x u)
      (Function.update s.configured userId c u) := by
  by_cases hu : u = userId
  · subst hu
    simpa using he
  · simpa [Function.update_of_ne hu] using h.users u

theorem Sound.read (h : s.Sound) {now : Int} {userId : String} {f : Entries → Entries}
    (hf : (f (s.users userId)).Agrees (s.latest userId) (s.configured userId)) (u : String) :
    ((s.read now userId f).users u).Agrees (s.latest u) (s.configured u) := by
  by_cases hu : u = userId
  · subst hu
    simpa [State.read] using hf
  · simpa [State.read, Function.update_of_ne hu] using (h.users u).pruneExpiredLocked s.store now

theorem Sound.exec (h : s.Sound) {now : Int} (hpos : 0 < now) (hnow : now < MAX_VALUE) {op : Op} (hmeets : s.Meets (now, op))
    (u : String) : ((s.exec now op).users u).Agrees ((s.exec now op).latest u) ((s.exec now op).configured u) := by
  cases op with
  | initializeStore => exact h.users u
  | setMasterUnlockKey userId muk fails =>
    have hset := h.update userId ((h.users userId).setMasterUnlockKey muk hpos hmeets) u
    rwa [Function.update_eq_self] at hset
  | clearMasterUnlockKey userId =>
    have hclear := h.update userId ((h.users userId).clearMasterUnlockKey hmeets) u
    rwa [Function.update_eq_self] at hclear
  | clearAllMasterUnlockKeys =>
    simp only [State.exec]
    split
    · exact ⟨holds_none, holds_none, (h.users u).runtime, (h.users u).persisted⟩
    · next hstore => exact (h.users u).cleared s.store (hmeets.resolve_left hstore u)
  | setMukAutoLockTimeout userId timeoutMs =>
    have hstore : s.store = true := hmeets
    have hset := h.update userId ((h.users userId).setMukAutoLockTimeout now timeoutMs) u
    rw [Function.update_eq_self] at hset
    simpa only [State.exec, hstore] using hset
  | getMasterUnlockKey userId =>
    exact h.read (f := fun e => (e.getMasterUnlockKey s.store now).2) ((h.users userId).getMasterUnlockKey hnow).1 u
  | isUnlocked userId => exact h.read (f := fun e => (e.isUnlocked s.store now).2) (h.users userId).isUnlocked u
  | restart => exact (h.users u).restart

theorem Sound.step {s' : State} {a : Int × Op} (h : s.Sound) (hmeets : s.Meets a) (hstep : s.step a = some s') : s'.Sound := by
  simp only [State.step] at hstep
  split at hstep
  · next htime =>
    cases hstep
    have hpos := Int.lt_of_lt_of_le h.clock htime.1
    exact ⟨hpos, h.exec hpos htime.2 hmeets⟩
  · cases hstep

end State

/-- **The key expires and clears everywhere** in these runs; that a user is unlocked says in every state that there
is a key to get. -/
theorem masterUnlockKey_expires (s : State) (userId : String) (now : Int) :
    ((s.users userId).isUnlocked s.store now).1 = ((s.users userId).getMasterUnlockKey s.store now).1.isSome ∧
    (system.ReachableUnder State.Meets s → now < MAX_VALUE → ∀ muk,
      ((s.users userId).getMasterUnlockKey s.store now).1 = some muk →
        ∃ setAt, s.latest userId = some (muk, setAt) ∧ (s.timeout userId < 0 ∨ now < setAt + s.timeout userId)) := by
  refine ⟨Entries.isUnlocked_eq .., fun h hnow muk hget => ?_⟩
  have hsound : s.Sound := by
    refine h.invariant State.Sound (fun s hinit => ?_) fun s a t _ hsound hmeets hstep => hsound.step hmeets hstep
    subst hinit
    exact ⟨Int.one_pos, fun u => ⟨holds_none, holds_none, by simp [State.init, Entries.empty], rfl⟩⟩
  exact ((hsound.users userId).getMasterUnlockKey hnow).2 muk hget

/-- A key that is restored after a restart. -/
theorem masterUnlockKey_expires_restored : ∃ s : State, ((s.users "ann").getMasterUnlockKey s.store 5).1 = some [1] ∧
    ∃ setAt, s.latest "ann" = some ([1], setAt) ∧ (s.timeout "ann" < 0 ∨ 5 < setAt + s.timeout "ann") := by
  have hstart : system.ReachableUnder State.Meets .init := .init rfl
  have hset := (hstart.step (1, Op.initializeStore) trivial rfl).step (2, Op.setMasterUnlockKey "ann" [1] false)
    (Or.inl ⟨rfl, rfl⟩) rfl
  have hrun := (hset.step (3, Op.restart) trivial rfl).step (4, Op.initializeStore) trivial rfl
  exact ⟨_, rfl, (masterUnlockKey_expires _ "ann" 5).2 hrun (by decide) [1] rfl⟩

/-- The keystore cannot be written to: the key that has been replaced is there again after a restart. -/
theorem replaced_key_restored : ¬ ∀ s : State, system.Reachable s → ∀ (userId : String) (now : Int), now < MAX_VALUE → ∀ muk,
    ((s.users userId).getMasterUnlockKey s.store now).1 = some muk →
      ∃ setAt, s.latest userId = some (muk, setAt) ∧ (s.timeout userId < 0 ∨ now < setAt + s.timeout userId) := by
  intro hall
  have hrun : (system.run .init [(1, .initializeStore), (2, .setMasterUnlockKey "ann" [1] false),
      (3, .setMasterUnlockKey "ann" [2] true), (4, .restart), (5, .initializeStore)]).map (fun s =>
        (((s.users "ann").getMasterUnlockKey s.store 6).1, s.latest "ann")) = some (some [1], some ([2], 3)) := by decide
  obtain ⟨s, hs, hends⟩ := Option.map_eq_some_iff.mp hrun
  simp only [Prod.mk.injEq] at hends
  obtain ⟨setAt, hlatest, -⟩ := hall s (.run (.init rfl) hs) "ann" 6 (by decide) [1] hends.1
  rw [hends.2] at hlatest
  cases hlatest

end Bittery.VaultStateManager
