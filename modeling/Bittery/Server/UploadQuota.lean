/-
The storage quota of a team: the reservation of an upload, the creation of its attachment and
what frees storage again (`domains/vaults/attachments.rs`, `jobs/sql.rs`).

A request runs one statement at a time at READ COMMITTED, so each of its sums is of the rows
at its own moment. A reservation holds the advisory lock of its team from its first sum to
its commit. A creation reads the reservation from the pool and holds no lock; its transaction
names the reservation by its id alone.

Users, teams and plans do not change during a run. The checks on the item, on access to its
vault, on the signature of a key and on the uploaded object come with the label: a request
they refuse takes no step.
-/
import Bittery.Lib.Runs
import Bittery.Server.AttachmentUploads

namespace Bittery

open Lib

/-! ## The actor -/

structure AttachmentActor where
  teamId : String
  maxFileSizeBytes : Option Int
  storageBytes : Option Int
deriving DecidableEq, Repr

/-- `load_attachment_actor`. -/
def attachmentActor (db : Db) (mode : DeploymentMode) (userId : String) : Except AppError AttachmentActor :=
  let unavailable := AppError.forbidden "Attachments are only available on paid plans with active billing."
  match loadTeamBillingEntitlement db userId, mode with
  | some (some teamId, _, _), .selfHosted => .ok ⟨teamId, none, none⟩
  | _, .selfHosted => .ok ⟨s!"self-hosted:{userId}", none, none⟩
  | some (some teamId, plan, status), .cloud =>
    let entitlement := resolveAttachmentEntitlement .cloud plan status
    if ¬ entitlement.enabled then .error unavailable
    else .ok ⟨teamId, entitlement.maxFileSizeBytes, entitlement.storageBytes⟩
  | _, .cloud => .error unavailable

/-! ## Rows and requests -/

def PENDING_ATTACHMENT_UPLOAD_LIFETIME : Time := 15 * 60

structure PendingAttachmentUpload where
  id : String
  attachmentId : String
  teamId : String
  itemId : String
  storageKey : String
  fileSize : Int32
  storageSize : Int32
  createdBy : String
  expiresAt : Time
  consumedAt : Option Time
deriving DecidableEq, Repr

/-- `consumed_at IS NULL AND expires_at > now`. -/
def PendingAttachmentUpload.isOpen (p : PendingAttachmentUpload) (now : Time) : Bool :=
  p.consumedAt.isNone && now < p.expiresAt

/-- The columns of an attachment that count. -/
structure UploadedAttachment where
  id : String
  itemId : String
  storageKey : String
  storageSize : Int32
  uploadedBy : String
deriving DecidableEq, Repr

/-- How far a reservation has come. -/
inductive ReservePhase
  | waiting
  | locked
  | summed (committedUsage : Int)
  | granted
deriving DecidableEq, Repr

def ReservePhase.holdsLock : ReservePhase → Bool
  | waiting => false
  | locked | summed _ | granted => true

/-- Between the sum of the attachments and the one of the reservations. -/
def ReservePhase.betweenSums : ReservePhase → Bool
  | summed _ => true
  | waiting | locked | granted => false

/-- `create_vault_attachment_upload` in flight. -/
structure ReserveRequest where
  id : Nat
  userId : String
  actor : AttachmentActor
  input : CreateAttachmentUploadInput
  storageKey : String
  now : Time
  phase : ReservePhase
deriving DecidableEq, Repr

def ReserveRequest.storageSize (r : ReserveRequest) : Int32 := encryptedAttachmentStorageSize r.input.fileSize

/-- `create_vault_attachment` in flight, with the reservation it has read. -/
structure CreateRequest where
  id : Nat
  reservation : PendingAttachmentUpload
deriving DecidableEq, Repr

/-- The tables, the requests in flight, the ids of all reservations there have been and, once for
each creation that has committed, the reservation it was from. -/
structure Uploads where
  now : Time
  pending : Table PendingAttachmentUpload.id
  attachments : Table UploadedAttachment.id
  reserving : Table ReserveRequest.id
  creating : Table CreateRequest.id
  issued : List String
  consumed : List String
deriving DecidableEq

/-! ## Usage -/

/-- `SUM(ia.storage_size) … WHERE u.team_id`. -/
def committedUsage (db : Db) (attachments : Table UploadedAttachment.id) (teamId : String) : Int :=
  attachments.sum fun a =>
    if (db.users.get? a.uploadedBy).any fun u => u.teamId = some teamId then a.storageSize.toInt else 0

/-- `SUM(storage_size) … WHERE team_id AND consumed_at IS NULL AND expires_at > now`. -/
def pendingUsage (pending : Table PendingAttachmentUpload.id) (teamId : String) (now : Time) : Int :=
  pending.sum fun p => if p.teamId = teamId && p.isOpen now then p.storageSize.toInt else 0

/-- Committed attachments and unexpired reservations. -/
def Uploads.usage (db : Db) (s : Uploads) (teamId : String) : Int :=
  committedUsage db s.attachments teamId + pendingUsage s.pending teamId s.now

/-! ## Steps -/

inductive UploadLabel
  | tick (time : Nat)
  | reserve (id : Nat) (userId storageKey : String) (input : CreateAttachmentUploadInput)
  | lock (id : Nat)
  | sumCommitted (id : Nat)
  | sumPending (id : Nat)
  | insertPending (id : Nat) (pendingId attachmentId : String)
  | rollback (id : Nat)
  | loadReservation (id : Nat) (userId storageKey itemId attachmentId : String) (fileSize : Int32)
  | createAttachment (id : Nat)
  | abandon (id : Nat)
  | deleteAttachment (attachmentId : String)
  | deleteItem (itemId : String)
  | cleanup (ids : List String)
deriving DecidableEq, Repr

namespace Uploads

def putReserving (s : Uploads) (r : ReserveRequest) : Uploads := { s with reserving := s.reserving.put r }

def endReserving (s : Uploads) (id : Nat) : Uploads := { s with reserving := s.reserving.deleteWhere fun r => r.id = id }

def endCreating (s : Uploads) (id : Nat) : Uploads := { s with creating := s.creating.deleteWhere fun c => c.id = id }

/-- Whether a request holds the advisory lock of a team. -/
def lockHeld (s : Uploads) (teamId : String) : Bool :=
  s.reserving.any fun r => r.actor.teamId = teamId && r.phase.holdsLock

/-- The request up to its transaction: its checks, and the time it takes to be now. -/
def reserve (db : Db) (mode : DeploymentMode) (s : Uploads) (id : Nat) (userId storageKey : String)
    (input : CreateAttachmentUploadInput) : Except AppError (Option Uploads) := do
  checkUploadInput input
  let actor ← attachmentActor db mode userId
  if actor.maxFileSizeBytes.any fun maxBytes => maxBytes < input.fileSize.toInt then
    throw (.badRequest "Attachment file exceeds the maximum allowed size for your current plan.")
  return (s.reserving.insert ⟨id, userId, actor, input, storageKey, s.now, .waiting⟩).map fun reserving =>
    { s with reserving := reserving }

/-- The second sum, and the check of the quota: a request over it ends. -/
def checkQuota (s : Uploads) (r : ReserveRequest) (committed : Int) : Uploads :=
  let currentUsage := committed + pendingUsage s.pending r.actor.teamId r.now
  if r.actor.storageBytes.any fun quotaBytes => quotaBytes < currentUsage + r.storageSize.toInt then s.endReserving r.id
  else s.putReserving { r with phase := .granted }

/-- The row of a reservation; its id and the one of its attachment are new random ones. -/
def insertPending (db : Db) (s : Uploads) (r : ReserveRequest) (pendingId attachmentId : String) : Option Uploads := do
  guard (pendingId ∉ s.issued)
  guard (db.teams.get? r.actor.teamId).isSome
  guard ¬ s.pending.any fun p => p.storageKey = r.storageKey
  let pending ← s.pending.insert
    { id := pendingId, attachmentId := attachmentId, teamId := r.actor.teamId, itemId := r.input.itemId,
      storageKey := r.storageKey, fileSize := r.input.fileSize, storageSize := r.storageSize, createdBy := r.userId,
      expiresAt := r.now + PENDING_ATTACHMENT_UPLOAD_LIFETIME, consumedAt := none }
  return { s with pending := pending, issued := pendingId :: s.issued }.endReserving r.id

/-- `load_pending_attachment_reservation`. -/
def loadReservation (s : Uploads) (storageKey itemId createdBy : String) : Option PendingAttachmentUpload :=
  s.pending.rows.find? fun p => p.storageKey = storageKey && p.itemId = itemId && p.createdBy = createdBy && p.isOpen s.now

/-- `UPDATE pending_attachment_upload SET consumed_at WHERE id`. -/
def consumePending (s : Uploads) (id : String) : Table PendingAttachmentUpload.id :=
  s.pending.updateWhere (fun r => r.id = id) fun r => { r with consumedAt := some s.now }

/-- The transaction of a creation: it fails where the attachment is there. -/
def createAttachment (s : Uploads) (c : CreateRequest) : Uploads :=
  let p := c.reservation
  match s.attachments.insert ⟨p.attachmentId, p.itemId, p.storageKey, p.storageSize, p.createdBy⟩ with
  | none => s.endCreating c.id
  | some attachments =>
    { s with
      attachments := attachments
      pending := s.consumePending p.id
      consumed := p.id :: s.consumed }.endCreating c.id

def step (db : Db) (mode : DeploymentMode) (s : Uploads) : UploadLabel → Option Uploads
  | .tick time => some { s with now := s.now + time }
  | .reserve id userId storageKey input =>
    ((s.reserve db mode id userId storageKey input).toOption).bind fun s' => s'
  | .lock id => do
    let r ← s.reserving.get? id
    guard (r.phase = .waiting ∧ s.lockHeld r.actor.teamId = false)
    return s.putReserving { r with phase := .locked }
  | .sumCommitted id => do
    let r ← s.reserving.get? id
    guard (r.phase = .locked)
    return s.putReserving { r with phase := .summed (committedUsage db s.attachments r.actor.teamId) }
  | .sumPending id => do
    let r ← s.reserving.get? id
    match r.phase with
    | .summed committed => return s.checkQuota r committed
    | _ => none
  | .insertPending id pendingId attachmentId => do
    let r ← s.reserving.get? id
    guard (r.phase = .granted)
    s.insertPending db r pendingId attachmentId
  | .rollback id => some (s.endReserving id)
  | .loadReservation id userId storageKey itemId attachmentId fileSize => do
    let _ ← (attachmentActor db mode userId).toOption
    let reservation ← s.loadReservation storageKey itemId userId
    guard (reservation.fileSize = fileSize ∧ reservation.attachmentId = attachmentId)
    let creating ← s.creating.insert ⟨id, reservation⟩
    return { s with creating := creating }
  | .createAttachment id => do
    let c ← s.creating.get? id
    return s.createAttachment c
  | .abandon id => some (s.endCreating id)
  | .deleteAttachment attachmentId =>
    some { s with attachments := s.attachments.deleteWhere fun a => a.id = attachmentId }
  | .deleteItem itemId =>
    -- The foreign keys of both tables delete with the item.
    some { s with
      attachments := s.attachments.deleteWhere fun a => a.itemId = itemId
      pending := s.pending.deleteWhere fun p => p.itemId = itemId }
  | .cleanup ids => do
    -- The job has found them unconsumed and expired, at some moment before.
    guard (∀ p ∈ s.pending, p.id ∈ ids → p.expiresAt < s.now)
    return { s with pending := s.pending.deleteWhere fun p => decide (p.id ∈ ids) }

end Uploads

/-! ## What is claimed -/

/-- **The quota of every team holds**, and no reservation is consumed twice. -/
structure Uploads.QuotaHeld (db : Db) (mode : DeploymentMode) (s : Uploads) : Prop where
  quota : ∀ userId actor, attachmentActor db mode userId = .ok actor → ∀ quota ∈ actor.storageBytes,
    s.usage db actor.teamId ≤ quota
  once : s.consumed.Nodup

/-- A creation that will not find its attachment there finds its reservation open, and no
reservation of the team with a quota between its two sums. -/
def Uploads.Timely (s : Uploads) : UploadLabel → Prop
  | .createAttachment id => ∀ c ∈ s.creating.get? id, s.attachments.get? c.reservation.attachmentId = none →
      (s.pending.get? c.reservation.id).any (fun p => p.isOpen s.now) = true ∧
        ∀ r ∈ s.reserving, r.actor.teamId = c.reservation.teamId → r.actor.storageBytes.isSome = true →
          r.phase.betweenSums = false
  | _ => True

instance (s : Uploads) : (label : UploadLabel) → Decidable (s.Timely label)
  | .createAttachment id => inferInstanceAs (Decidable (∀ c ∈ s.creating.get? id,
      s.attachments.get? c.reservation.attachmentId = none →
        (s.pending.get? c.reservation.id).any (fun p => p.isOpen s.now) = true ∧
          ∀ r ∈ s.reserving, r.actor.teamId = c.reservation.teamId → r.actor.storageBytes.isSome = true →
            r.phase.betweenSums = false))
  | .tick _ | .reserve .. | .lock _ | .sumCommitted _ | .sumPending _ | .insertPending .. | .rollback _
  | .loadReservation .. | .abandon _ | .deleteAttachment _ | .deleteItem _ | .cleanup _ =>
    inferInstanceAs (Decidable True)

def uploads (db : Db) (mode : DeploymentMode) : System Uploads UploadLabel where
  init s := ∃ now, s = ⟨now, .empty, .empty, .empty, .empty, [], []⟩
  step := Uploads.step db mode

end Bittery
