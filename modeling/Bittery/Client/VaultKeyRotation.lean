/-
The vault key rotation ceremony of the clients: `packages/core/src/services/vault-key-rotation.ts`,
with the calls of the crypto port that are in flight and the chain of cleanups.

Between two awaits nothing else runs; while the ceremony waits, crypto calls settle, the account
may lock, and the cleanups go on. What is staged and what the server is sent otherwise is left out.
The master unlock key is the store's, which destroys it when the account locks; the keys of the
ceremony are numbered after it.
-/
import Bittery.Client.VaultCrypto
import Bittery.Lib.Runs

namespace Bittery

open Lib

/-! ## Plans and pages -/

structure VaultRotationPlan where
  planId : String
  vaultId : String
  expectedKeyVersion : Nat
deriving DecidableEq, Repr

inductive RotationPreparationKind
  | member
  | item
  | attachment
deriving DecidableEq, Repr

structure MemberKeyData where
  userId : String
  publicKey : String
deriving DecidableEq, Repr

structure RotationItemData where
  id : String
  data : EncryptedData
  context : EncryptionContext
deriving DecidableEq, Repr

structure RotationAttachmentEnvelope where
  attachmentId : String
  encryptedAttachmentKey : EncryptedData
  context : EncryptionContext
deriving DecidableEq, Repr

/-- The records of a page, without their ids and versions. -/
inductive RotationRecords
  | members (records : List MemberKeyData)
  | items (records : List RotationItemData)
  | attachments (records : List RotationAttachmentEnvelope)
deriving DecidableEq, Repr

def RotationRecords.kind : RotationRecords → RotationPreparationKind
  | .members _ => .member
  | .items _ => .item
  | .attachments _ => .attachment

structure RotationPreparationPage where
  records : RotationRecords
  nextCursor : Option String
deriving DecidableEq, Repr

/-- The kind whose pages come next. -/
def RotationPreparationKind.next : RotationPreparationKind → Option RotationPreparationKind
  | .member => some .item
  | .item => some .attachment
  | .attachment => none

def MAX_SAFE_INTEGER : Nat := 9007199254740991

def nextAttachmentEnvelopeContext (context : EncryptionContext) : Except String EncryptionContext :=
  if context.entityType ≠ .attachmentKey then .error "Rotation Attachment envelope has an invalid encryption context."
  else if MAX_SAFE_INTEGER < context.version ∨ context.version < 1 then
    .error "Rotation Attachment envelope has an invalid version."
  else .ok { context with version := context.version + 1 }

/-! ## Crypto calls -/

/-- A call of the crypto port that `runCrypto` makes. -/
inductive RotationCryptoCall
  | encryptVaultKeyWithMuk (vaultKey masterUnlockKey : KeyRef) (vaultId userId : String) (keyVersion : Nat)
  | encryptVaultKeyForMember (vaultKey : KeyRef) (publicKey : String)
  | reEncryptItem (item : RotationItemData) (oldVaultKey newVaultKey : KeyRef)
  | rewrapAttachmentKey (data : EncryptedData) (oldVaultKey newVaultKey : KeyRef) (context next : EncryptionContext)
deriving DecidableEq, Repr

def RotationCryptoCall.keys : RotationCryptoCall → List KeyRef
  | .encryptVaultKeyWithMuk vaultKey masterUnlockKey _ _ _ => [vaultKey, masterUnlockKey]
  | .encryptVaultKeyForMember vaultKey _ => [vaultKey]
  | .reEncryptItem _ oldVaultKey newVaultKey => [oldVaultKey, newVaultKey]
  | .rewrapAttachmentKey _ oldVaultKey newVaultKey _ _ => [oldVaultKey, newVaultKey]

/-- A call that was made, and whether it has resolved or rejected. -/
structure ActiveCall where
  call : RotationCryptoCall
  settled : Option Bool
deriving DecidableEq, Repr

/-- A cleanup waits for the cleanups before it and for the calls that were active, then it has
destroyed the refs, and then those calls have settled too. -/
inductive CleanupPhase
  | waiting
  | destroying
  | done
deriving DecidableEq, Repr

structure Cleanup where
  refs : List KeyRef
  callsUsingRefs : List Nat
  phase : CleanupPhase
deriving DecidableEq, Repr

inductive RotationOutcome
  | completed
  | refreshRequired
  | rejected
deriving DecidableEq, Repr

/-- What the ceremony waits for. -/
inductive RotationAwait
  | start
  | getMasterUnlockKey
  | openVaultKey
  | generateEncryptionKey
  | preparationPage (kind : RotationPreparationKind)
  /-- All the calls for a page; `none` for a record that rejects without a call. -/
  | crypto (kind : RotationPreparationKind) (calls : List (Option Nat)) (nextCursor : Option String)
  | stage (kind : RotationPreparationKind) (nextCursor : Option String)
  /-- The cleanups so far, at the end of a plan, and whether the plan has thrown. -/
  | retirePlan (cleanups : Nat) (thrown : Bool)
  | finalize
  | refresh
  | markUnavailable
  | abandon (outcome : RotationOutcome)
  | retireLast (cleanups : Nat) (outcome : RotationOutcome)
  | ended (outcome : RotationOutcome)
deriving DecidableEq, Repr

structure Rotation where
  await : RotationAwait
  /-- The plans that are left, the current one first. -/
  plans : List VaultRotationPlan
  masterUnlockKey : Option KeyRef
  oldKey : KeyRef
  newKey : KeyRef
  ownedOldVaultKey : Option KeyRef
  ownedNewVaultKey : Option KeyRef
  aborted : Bool
  listening : Bool
  didFinalize : Bool
  calls : List ActiveCall
  cleanups : List Cleanup
  /-- How many keys the ceremony was given, the refs that it destroyed, and whether the store has
  destroyed the master unlock key. -/
  made : Nat
  destroyed : List KeyRef
  storeLocked : Bool
deriving DecidableEq, Repr

/-- The store's key. -/
def storeKey : KeyRef := ⟨0⟩

namespace Rotation

/-- A ceremony that was begun, with or without a subscription to locks. -/
def begun (listening : Bool) : Rotation where
  await := .start
  plans := []
  masterUnlockKey := none
  oldKey := storeKey
  newKey := storeKey
  ownedOldVaultKey := none
  ownedNewVaultKey := none
  aborted := false
  listening := listening
  didFinalize := false
  calls := []
  cleanups := []
  made := 0
  destroyed := []
  storeLocked := false

variable (s : Rotation)

/-- The calls that have not settled. -/
def activeCryptoCalls : List Nat :=
  (List.range s.calls.length).filter fun i => s.calls[i]?.any fun call => call.settled.isNone

def ownedRefs : List KeyRef := s.ownedNewVaultKey.toList ++ s.ownedOldVaultKey.toList

def retireOwnedRefs : Rotation :=
  if s.ownedRefs = [] then s
  else { s with
    ownedOldVaultKey := none, ownedNewVaultKey := none,
    cleanups := s.cleanups ++ [⟨s.ownedRefs, s.activeCryptoCalls, .waiting⟩] }

/-- The `finally` of a plan. -/
def endPlan (thrown : Bool) : Rotation :=
  { s.retireOwnedRefs with await := .retirePlan s.retireOwnedRefs.cleanups.length thrown }

/-- The outer `finally`. -/
def endRotation (outcome : RotationOutcome) : Rotation :=
  if s.didFinalize then
    { s.retireOwnedRefs with listening := false, await := .retireLast s.retireOwnedRefs.cleanups.length outcome }
  else { s with listening := false, await := .abandon outcome }

/-- On with the plans, or to the end of the last one. -/
def nextPlan (plans : List VaultRotationPlan) : Rotation :=
  match plans with
  | [] => if s.aborted then { s with plans := [] }.endRotation .rejected else { s with plans := [], await := .finalize }
  | _ => { s with plans := plans, await := .openVaultKey }

/-- On with the pages of a kind, or with the next kind. -/
def nextPage (kind : RotationPreparationKind) (nextCursor : Option String) : Rotation :=
  if s.aborted then s.endPlan true
  else if nextCursor.isSome then { s with await := .preparationPage kind }
  else
    match kind.next with
    | some next => { s with await := .preparationPage next }
    | none => s.endPlan false

/-- What is called for each record of a page. -/
def pageCalls (currentUserId : String) (plan : VaultRotationPlan) (masterUnlockKey : KeyRef) :
    RotationRecords → List (Option RotationCryptoCall)
  | .members records => records.map fun member =>
    if member.userId = currentUserId then
      some (.encryptVaultKeyWithMuk s.newKey masterUnlockKey plan.vaultId currentUserId (plan.expectedKeyVersion + 1))
    else some (.encryptVaultKeyForMember s.newKey member.publicKey)
  | .items records => records.map fun item => some (.reEncryptItem item s.oldKey s.newKey)
  | .attachments records => records.map fun envelope =>
    match nextAttachmentEnvelopeContext envelope.context with
    | .ok next => some (.rewrapAttachmentKey envelope.encryptedAttachmentKey s.oldKey s.newKey envelope.context next)
    | .error _ => none

/-- A record of the current user, whose copy needs the master unlock key. -/
def needsMasterUnlockKey (currentUserId : String) : RotationRecords → Bool
  | .members records => records.any fun member => decide (member.userId = currentUserId)
  | .items _ | .attachments _ => false

/-- The calls of a page are made in turn; they are numbered, and `none` marks a record without one. -/
def numberCalls : Nat → List (Option RotationCryptoCall) → List (Option Nat)
  | _, [] => []
  | n, none :: rest => none :: numberCalls n rest
  | n, some _ :: rest => some n :: numberCalls (n + 1) rest

def makeCalls (calls : List (Option RotationCryptoCall)) : Rotation :=
  { s with calls := s.calls ++ (calls.reduceOption.map fun call => ⟨call, none⟩) }

/-- A page has come. -/
def preparePage (currentUserId : String) (kind : RotationPreparationKind) (page : RotationPreparationPage) : Rotation :=
  match s.plans with
  | [] => s
  | plan :: _ =>
    if s.aborted then s.endPlan true
    else if s.masterUnlockKey.isNone && needsMasterUnlockKey currentUserId page.records then s.endPlan true
    else
      let calls := s.pageCalls currentUserId plan (s.masterUnlockKey.getD storeKey) page.records
      { s.makeCalls calls with await := .crypto kind (numberCalls s.calls.length calls) page.nextCursor }

/-- Whether a call, or a record without one, has rejected; whether it has resolved. -/
def rejectedCall : Option Nat → Bool
  | none => true
  | some i => s.calls[i]?.any fun call => call.settled = some false

def resolvedCall : Option Nat → Bool
  | none => false
  | some i => s.calls[i]?.any fun call => call.settled = some true

def allDone (cleanups : Nat) : Bool := (s.cleanups.take cleanups).all fun cleanup => cleanup.phase = .done

end Rotation

/-! ## Steps -/

inductive RotationLabel
  /-- What the ceremony awaits is answered, or rejects. -/
  | started (plans : Option (List VaultRotationPlan))
  | gotMasterUnlockKey (answer : Option (Option KeyRef))
  | openedVaultKey (opened : Bool)
  | generatedKey (generated : Bool)
  | page (answer : Option RotationPreparationPage)
  | cryptoResolved
  | cryptoRejected
  | staged (done : Bool)
  | retired
  | finalized (done : Bool)
  | refreshed (done : Bool)
  | markedUnavailable (done : Bool)
  | abandoned
  /-- A crypto call settles. -/
  | callSettled (i : Nat) (resolved : Bool)
  /-- A cleanup destroys its refs, and these calls have settled. -/
  | destroyRefs (j : Nat)
  | destroyed (j : Nat)
  /-- The store destroys the master unlock key, and the ceremony hears of the lock. -/
  | storeLocks
  | lockListener
deriving DecidableEq, Repr

namespace Rotation

def step (currentUserId : String) (s : Rotation) : RotationLabel → Option Rotation
  | .started plans =>
    if s.await = .start then
      match plans with
      | none => some (s.endRotation .rejected)
      | some plans =>
        if s.aborted then some ({ s with plans := plans }.endRotation .rejected)
        else some { s with plans := plans, await := .getMasterUnlockKey }
    else none
  | .gotMasterUnlockKey answer =>
    if s.await = .getMasterUnlockKey ∧ (s.storeLocked = true → answer ≠ some (some storeKey)) ∧
        ∀ found ∈ answer, ∀ key ∈ found, key = storeKey then
      match answer with
      | none => some (s.endRotation .rejected)
      | some found =>
        if s.aborted then some (s.endRotation .rejected)
        else some ({ s with masterUnlockKey := found }.nextPlan s.plans)
    else none
  | .openedVaultKey opened =>
    if s.await = .openVaultKey then
      if opened then
        let key : KeyRef := ⟨s.made + 1⟩
        let s' := { s with made := s.made + 1, oldKey := key, ownedOldVaultKey := some key }
        if s.aborted then some (s'.endPlan true) else some { s' with await := .generateEncryptionKey }
      else some (s.endPlan true)
    else none
  | .generatedKey generated =>
    if s.await = .generateEncryptionKey then
      if generated then
        let key : KeyRef := ⟨s.made + 1⟩
        let s' := { s with made := s.made + 1, newKey := key, ownedNewVaultKey := some key }
        if s.aborted then some (s'.endPlan true) else some { s' with await := .preparationPage .member }
      else some (s.endPlan true)
    else none
  | .page answer =>
    match s.await with
    | .preparationPage kind =>
      match answer with
      | none => some (s.endPlan true)
      | some page => if page.records.kind = kind then some (s.preparePage currentUserId kind page) else none
    | _ => none
  | .cryptoResolved =>
    match s.await with
    | .crypto kind numbers nextCursor =>
      if numbers.all s.resolvedCall then
        if numbers = [] then some (s.nextPage kind nextCursor) else some { s with await := .stage kind nextCursor }
      else none
    | _ => none
  | .cryptoRejected =>
    match s.await with
    | .crypto _ numbers _ => if numbers.any s.rejectedCall then some (s.endPlan true) else none
    | _ => none
  | .staged done =>
    match s.await with
    | .stage kind nextCursor => if done then some (s.nextPage kind nextCursor) else some (s.endPlan true)
    | _ => none
  | .retired =>
    match s.await with
    | .retirePlan cleanups thrown =>
      if s.allDone cleanups then
        if thrown then some (s.endRotation .rejected) else some (s.nextPlan s.plans.tail)
      else none
    | .retireLast cleanups outcome => if s.allDone cleanups then some { s with await := .ended outcome } else none
    | _ => none
  | .finalized done =>
    if s.await = .finalize then
      if done then some { s with didFinalize := true, await := .refresh } else some (s.endRotation .rejected)
    else none
  | .refreshed done =>
    if s.await = .refresh then
      if done then some (s.endRotation .completed) else some { s with await := .markUnavailable }
    else none
  | .markedUnavailable done =>
    if s.await = .markUnavailable then some (s.endRotation (if done then .refreshRequired else .rejected)) else none
  | .abandoned =>
    match s.await with
    | .abandon outcome =>
      some { s.retireOwnedRefs with await := .retireLast s.retireOwnedRefs.cleanups.length outcome }
    | _ => none
  | .callSettled i resolved =>
    match s.calls[i]? with
    | some ⟨call, none⟩ => some { s with calls := s.calls.set i ⟨call, some resolved⟩ }
    | _ => none
  | .destroyRefs j =>
    match s.cleanups[j]? with
    | some ⟨refs, callsUsingRefs, .waiting⟩ =>
      if s.allDone j ∧ ∀ i ∈ callsUsingRefs, i ∉ s.activeCryptoCalls then
        some { s with
          destroyed := refs ++ s.destroyed, cleanups := s.cleanups.set j ⟨refs, callsUsingRefs, .destroying⟩ }
      else none
    | _ => none
  | .destroyed j =>
    match s.cleanups[j]? with
    | some ⟨refs, callsUsingRefs, .destroying⟩ => some { s with cleanups := s.cleanups.set j ⟨refs, callsUsingRefs, .done⟩ }
    | _ => none
  | .storeLocks => if s.storeLocked then none else some { s with storeLocked := true }
  | .lockListener => if s.listening then some { s with aborted := true }.retireOwnedRefs else none

/-- The ceremony of one user, from its start, while the account may lock at any time. -/
def system (currentUserId : String) : System Rotation RotationLabel where
  init s := ∃ listening, s = begun listening
  step := step currentUserId

/-- A call in flight was given the key. -/
def InFlight (s : Rotation) (key : KeyRef) : Prop := ∃ call ∈ s.calls, call.settled = none ∧ key ∈ call.call.keys

/-- The keys that a step destroys. -/
def destroys (s : Rotation) : RotationLabel → List KeyRef
  | .destroyRefs j => (s.cleanups[j]?.map (·.refs)).getD []
  | .storeLocks => [storeKey]
  | _ => []

/-- The store does not destroy the master unlock key while a call that was given it is in flight. -/
def StoreWaits (s : Rotation) (label : RotationLabel) : Prop := label = .storeLocks → ¬ s.InFlight storeKey

end Rotation

end Bittery
