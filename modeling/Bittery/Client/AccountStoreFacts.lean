/-
What the commands of the account store leave as it is, and which commands its programs come to.
-/
import Bittery.Client.AccountStore

namespace Bittery

open Lib

/-- A command that only reads. -/
def Command.reads : Command → Prop
  | .get _ | .now | .readCache | .isAvailable | .getDetails => True
  | _ => False

namespace AccountStore

variable {s t : AccountStore} {c : Command}

/-! ## The records of operations -/

structure SameRecords (s t : AccountStore) : Prop where
  locked : t.locked = s.locked
  initialized : t.initialized = s.initialized
  rejected : t.rejected = s.rejected

theorem Performed.sameRecords (h : s.Performed c t) : SameRecords s t := by
  cases h with
  | getDeviceKey =>
    unfold loadDeviceKey
    split <;> exact ⟨rfl, rfl, rfl⟩
  | setEntry a key =>
    unfold AccountStore.setEntry
    split <;> exact ⟨rfl, rfl, rfl⟩
  | _ => exact ⟨rfl, rfl, rfl⟩

/-- Nothing but a failure of a port is a rejection. -/
theorem failed_of_rejected {answer : PortAnswer} (h : s.perform c answer = some (t, none)) : answer = .failed := by
  unfold perform at h
  split at h
  case h_10 => split at h <;> cases h
  case h_13 =>
    obtain ⟨_, _, h⟩ := Option.map_eq_some_iff.mp h
    cases h
  all_goals first | rfl | cases h

/-! ## Programs that only read -/

theorem reads_readValue (name : ValueName) : (readValue name).Answers Command.reads := Async.answers_await trivial

theorem reads_now : now.Answers Command.reads := Async.answers_await trivial

theorem reads_readCache : readCache.Answers Command.reads := Async.answers_await trivial

theorem reads_readAccountsList : readAccountsList.Answers Command.reads :=
  (reads_readValue _).bind fun _ => trivial

theorem reads_getStoredSessionData (accountId : String) : (getStoredSessionData accountId).Answers Command.reads :=
  (reads_readValue _).bind fun _ => trivial

theorem reads_isBiometricEnabled (accountId : String) : (isBiometricEnabled accountId).Answers Command.reads :=
  (reads_readValue _).bind fun _ => trivial

theorem reads_isSessionValid (accountId : String) : (isSessionValid accountId).Answers Command.reads := by
  refine (reads_getStoredSessionData accountId).bind fun session => (reads_readValue _).bind fun token => ?_
  cases session with
  | none => trivial
  | some session =>
    cases token with
    | none => trivial
    | some token =>
      dsimp only
      split
      · trivial
      · exact reads_now.bind fun _ => trivial

theorem reads_isBiometricAuthRequired (accountId : String) : (isBiometricAuthRequired accountId).Answers Command.reads := by
  refine (reads_getStoredSessionData accountId).bind fun session => ?_
  split
  · refine (reads_readValue _).bind fun lastAuth => ?_
    cases lastAuth with
    | none => trivial
    | some lastAuth => exact reads_now.bind fun _ => trivial
  · trivial

theorem reads_getMasterPasswordReentryPeriodMs : getMasterPasswordReentryPeriodMs.Answers Command.reads :=
  (reads_readValue _).bind fun _ => trivial

theorem reads_isMasterPasswordReentryRequired (accountId : String) :
    (isMasterPasswordReentryRequired accountId).Answers Command.reads := by
  refine (reads_getStoredSessionData accountId).bind fun session => ?_
  cases session with
  | none => trivial
  | some session =>
    dsimp only
    split
    · refine reads_getMasterPasswordReentryPeriodMs.bind fun periodMs => ?_
      split
      · trivial
      · exact reads_now.bind fun _ => trivial
    · trivial

theorem reads_canBiometricUnlock (accountId : String) : (canBiometricUnlock accountId).Answers Command.reads :=
  Async.Answers.bind (Async.answers_await trivial) fun _ => (reads_isBiometricEnabled accountId).bind fun _ =>
    (reads_isSessionValid accountId).bind fun _ => trivial

theorem reads_firstBiometricAccount (accounts : List AccountMetadata) :
    (firstBiometricAccount accounts).Answers Command.reads := by
  induction accounts with
  | nil => trivial
  | cons account accounts ih =>
    refine (reads_canBiometricUnlock account.accountId).bind fun can => ?_
    split
    · trivial
    · exact ih

/-! ## Programs that refresh the view -/

theorem reads_getAutoLockTimeoutOrDefault (accountId : Option String) :
    (getAutoLockTimeoutOrDefault accountId).Answers Command.reads := by
  refine Async.Answers.bind ?_ fun resolved => ?_
  · cases accountId with
    | none => exact reads_readValue _
    | some accountId => trivial
  · cases resolved with
    | none => trivial
    | some accountId => exact (reads_readValue _).bind fun _ => trivial

theorem reads_projectAccounts (accounts : List AccountMetadata) : (projectAccounts accounts).Answers Command.reads := by
  induction accounts with
  | nil => trivial
  | cons account accounts ih => exact (reads_isBiometricEnabled _).bind fun _ => ih.bind fun _ => trivial

end AccountStore

/-! ## An example -/

def exampleAccount (accountId : String) : AccountMetadata where
  accountId := accountId
  email := accountId ++ "@bittery.example"
  userId := accountId
  name := accountId
  serverUrl := "https://bittery.example"
  teamName := none
  teamAvatarUrl := none
  secretKeyHint := ""
  addedAt := 0
  lastActiveAt := 0
  biometricEnabled := false
  insecureTransportConfirmed := some false

/-- Two accounts with a session each, before the process has started. -/
def exampleStore : AccountStore where
  clock := 0
  values
    | .global .accountsList => some (⟨2, [exampleAccount "alice", exampleAccount "bob"]⟩ : AccountsListDocument)
    | .account _ .sessionData => some (⟨"wrapped", 100, some 100, 0, false, none⟩ : StoredSessionData)
    | .account _ .jwtToken => some "token"
    | _ => none
  mukCache := []
  nextSerial := 0
  deviceKeyCache := false
  destined _ := none
  owned := []
  destroyed := []
  locked _ := false
  initialized := false
  rejected := false

theorem exampleStore_initial : exampleStore.Initial where
  mukCache := rfl
  deviceKeyCache := rfl
  destined _ := rfl
  owned := rfl
  destroyed := rfl
  locked _ := rfl
  initialized := rfl
  rejected := rfl

theorem exampleStore_init : ((accountStore id).system AccountStore.Initial).init ⟨exampleStore, []⟩ :=
  ⟨exampleStore_initial, rfl⟩

end Bittery
