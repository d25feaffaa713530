/-
The key handles of all ceremonies: those on the keys of an account, which wait for one command at a
time, and the rotation of vault keys.
-/
import Bittery.Client.KeyHandles
import Bittery.Client.RotationHandles

namespace Bittery

open Lib CeremonyState

/-- **The key handles are linear.** In the ceremonies on the keys of an account, as long as no
`destroyKey` rejects that loses a key, each key that was made has been destroyed once, or the store or
the caller has it, and a command is only given keys that are there. A rotation destroys each key that it
was given at most once, and once when it has ended; and nothing is destroyed that a call in flight was
given, unless the store destroys the key that the rotation borrowed. -/
theorem key_handles_linear (κ : Type) :
    (∀ (ceremony : KeyCeremony) (r : Option (Option KeyRef))
      (moments : List (Moment (CeremonyState κ) CeremonyCommand CeremonyCommand.Answer)) (s : CeremonyState κ),
      Plays (handles κ) perform ceremony.run [] initial r moments s →
      (∀ key : KeyRef, key.id < s.keys.length →
        s.destroyed.count key + s.stored.count key + (r.bind id).toList.count key = 1) ∧
      ∀ m ∈ moments, ∀ key ∈ m.command.keys, key.id ∈ m.state.live) ∧
    ∀ (currentUserId : String) (s : Rotation), (Rotation.system currentUserId).Reachable s →
      (∀ key, s.destroyed.count key ≤ if s.Made key then 1 else 0) ∧
      (∀ outcome, s.await = .ended outcome → ∀ key, s.destroyed.count key = if s.Made key then 1 else 0) ∧
      ∀ label t, s.step currentUserId label = some t →
        ((∀ key ∈ s.destroys label, ¬ s.InFlight key) ↔ s.StoreWaits label) := by
  refine ⟨fun ceremony r moments s hrun => KeyCeremony.handles_once hrun, fun currentUserId s hs => ⟨?_, ?_, ?_⟩⟩
  · exact fun key => (Rotation.Reachable.destroyed_once hs key).1
  · exact fun outcome hended key => (Rotation.Reachable.destroyed_once hs key).2 outcome hended
  · exact fun label t hstep => Rotation.Reachable.destroys_iff hs hstep

/-- Some sealed data. -/
def sealedExample : EncryptedData := ⟨"ciphertext", "iv", "aes"⟩

/-- A ceremony in which any `destroyKey` may reject. -/
def unrestricted (κ : Type) : Contract (CeremonyState κ) CeremonyCommand (Finds κ) CeremonyCommand.Answer :=
  { handles κ with allowed := fun _ _ _ _ => True }

/-- The port makes every key, and destroys those that it does not refuse to. -/
def findsUnless (refuses : DestroyCall → Bool) : Finds Unit
  | .newKey _ => some ()
  | .deriveKeysFromMasterKey _ _ => some ((), ())
  | .destroyKey site _ => if refuses site then none else some ()
  | .deriveSrpPassword _ => some "srp"
  | .encrypt _ _ => some sealedExample
  | .decrypt _ _ => some "private key"
  | .generateSrpRegistration _ => some ⟨"salt", "verifier"⟩
  | .encryptVaultKeyWithMuk _ _ vaultId userId keyVersion =>
    some (.envelope ⟨sealedExample, some ⟨vaultId, userId, some keyVersion, VAULT_KEY_WRAP_PURPOSE⟩⟩)
  | .getPinnedKdfProfile _ => some (some currentKdfProfile)
  | .storePinnedKdfProfile _ _ => some ()
  | .commit _ => some ()
  | _ => none

/-- A password is changed, with one vault key of the account's own. -/
def changePasswordExample : KeyCeremony := .changePassword {
  accountId := "account"
  email := "a@example.com"
  userId := "u"
  currentPassword := "old"
  newPassword := "new"
  secretKey := "secret"
  encryptedPrivateKey := some sealedExample
  vaultKeys := [⟨"v", .envelope ⟨sealedExample, some ⟨"v", "u", some 1, VAULT_KEY_WRAP_PURPOSE⟩⟩⟩] }

def unlockExample : KeyCeremony := .unlock {
  accountPassword := "password"
  secretKey := "secret"
  email := "a@example.com"
  profile := currentKdfProfile
  accountId := none
  recoveryKey := none }

/-- A rotation of one vault with the key of the user's own copy, locked while that copy is made. -/
def lockedRotation : List RotationLabel :=
  [.started (some [⟨"p", "v", 1⟩]), .gotMasterUnlockKey (some (some storeKey)), .openedVaultKey true, .generatedKey true,
    .page (some ⟨.members [⟨"u", "public key"⟩], none⟩), .lockListener, .callSettled 0 true, .destroyRefs 0, .destroyed 0,
    .cryptoResolved, .staged true, .retired, .abandoned, .retired]

theorem key_handles_linear_examples :
    (∃ r moments s, Plays (handles Unit) perform changePasswordExample.run [] initial r moments s ∧
      r = some none ∧ s.keys.length = 7 ∧ ∀ key : KeyRef, key.id < s.keys.length →
        s.destroyed.count key + s.stored.count key + (r.bind id).toList.count key = 1) ∧
    ∃ s, (Rotation.system "u").Reachable s ∧ s.made = 2 ∧
      ∀ key, s.destroyed.count key = if s.Made key then 1 else 0 := by
  constructor
  · have hplayed : (changePasswordExample.run.play perform (fun _ => findsUnless fun _ => false) [] initial).any
        (fun (r, _, s) => r = some none ∧ s.keys.length = 7) = true := by
      decide +kernel
    rw [Option.any_eq_true] at hplayed
    obtain ⟨⟨r, moments, s⟩, hplay, hend⟩ := hplayed
    obtain ⟨hr, hkeys⟩ := of_decide_eq_true hend
    have hrun : Plays (handles Unit) perform changePasswordExample.run [] initial r moments s := by
      refine plays_play (fun seen s c => ?_) hplay
      cases c <;> trivial
    exact ⟨r, moments, s, hrun, hr, hkeys, ((key_handles_linear Unit).1 _ _ _ _ hrun).1⟩
  · have hrun : ((Rotation.system "u").run (Rotation.begun true) lockedRotation).any
        (fun s => s.made = 2 ∧ s.await = .ended .rejected) = true := by
      decide +kernel
    rw [Option.any_eq_true] at hrun
    obtain ⟨s, hrun, hend⟩ := hrun
    obtain ⟨hmade, hended⟩ := of_decide_eq_true hend
    have hs : (Rotation.system "u").Reachable s := .run (.init ⟨true, rfl⟩) hrun
    exact ⟨s, hs, hmade, ((key_handles_linear Unit).2 "u" s hs).2.1 _ hended⟩

/-- **The unlock key is lost** when it has been derived and the master key's `destroyKey` rejects: the
caller is not handed the key, and nothing destroys it. -/
theorem unlock_key_lost : ¬ ∀ (ceremony : KeyCeremony) (r : Option (Option KeyRef))
    (moments : List (Moment (CeremonyState Unit) CeremonyCommand CeremonyCommand.Answer)) (s : CeremonyState Unit),
    Plays (unrestricted Unit) perform ceremony.run [] initial r moments s →
    ∀ key : KeyRef, key.id < s.keys.length →
      s.destroyed.count key + s.stored.count key + (r.bind id).toList.count key = 1 := by
  intro hall
  have hplayed : (unlockExample.run.play perform (fun _ => findsUnless (· = .masterKey)) [] initial).any
      (fun (r, _, s) => r = none ∧ s.keys.length = 3 ∧ s.destroyed.count ⟨2⟩ = 0 ∧ s.stored.count ⟨2⟩ = 0) = true := by
    decide +kernel
  rw [Option.any_eq_true] at hplayed
  obtain ⟨⟨r, moments, s⟩, hplay, hend⟩ := hplayed
  obtain ⟨rfl, hkeys, hdestroyed, hstored⟩ := of_decide_eq_true hend
  have hone := hall unlockExample none moments s (plays_play (fun _ _ _ => trivial) hplay) ⟨2⟩ (by rw [hkeys]; decide)
  rw [hdestroyed, hstored] at hone
  cases hone

end Bittery
