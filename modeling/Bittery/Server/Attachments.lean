/-
Attachment requests: `domains/vaults/attachments.rs`.

As with item requests, the rows are read from the pool (`seen`, `acl`) before the
transaction commits on `db`. An attachment is filed under the vault its item was read in,
and no later request refiles it.

Left out: the reservation of an upload, and the columns of the object store. What the
checks on the signed upload key, the reservation and the uploaded object answer is an
input of the request (`upload`).
-/
import Bittery.Server.Items

namespace Bittery

open Lib

def ATTACHMENT_ENVELOPE_VERSION : Nat := 1

/-- `resolve_attachment_entitlement(…).enabled`. -/
def attachmentsEnabled (mode : DeploymentMode) (plan : Option BillingPlan) (status : Option BillingStatus) : Bool :=
  match mode with
  | .selfHosted => true
  | .cloud =>
    (plan = some .personal || plan = some .family || plan = some .team) && status.any BillingStatus.isActive

/-- `load_attachment_actor`, for its errors. -/
def loadAttachmentActor (db : Db) (mode : DeploymentMode) (userId : String) : Except AppError Unit :=
  let unavailable := AppError.forbidden "Attachments are only available on paid plans with active billing."
  match mode with
  | .selfHosted => .ok ()
  | .cloud =>
    match loadTeamBillingEntitlement db userId with
    | some (some _, plan, status) => if attachmentsEnabled mode plan status then .ok () else .error unavailable
    | _ => .error unavailable

structure CreateAttachmentInput where
  itemId : String
  attachmentId : String
  encryptedAttachmentKey : String
  attachmentKeyIv : String
  attachmentKeyAlgorithm : String
  envelopeVersion : Nat
  encryptedName : String
  encryptionIv : String
  encryptionAlgorithm : String
  /-- The error of the checks on the upload, when they fail. -/
  upload : Option AppError
deriving DecidableEq, Repr

def createVaultAttachment (mode : DeploymentMode) (seen acl db : Db) (userId : String) (clientId : Option String)
    (input : CreateAttachmentInput) : Except AppError Db := do
  loadAttachmentActor acl mode userId
  let scopedItem ← loadItemRow seen input.itemId
  requireWrite acl userId scopedItem.vaultId "Access denied"
  if input.envelopeVersion ≠ ATTACHMENT_ENVELOPE_VERSION then
    throw (.badRequest "Unsupported attachment envelope version")
  match input.upload with
  | some e => throw e
  | none =>
    -- The foreign keys of the row.
    if ¬ ((db.items.get? input.itemId).isSome && db.hasVault scopedItem.vaultId) then
      throw (.internal "Failed to create attachment")
    match db.attachments.insert
        { id := input.attachmentId, itemId := input.itemId, vaultId := scopedItem.vaultId,
          encryptedAttachmentKey := input.encryptedAttachmentKey, attachmentKeyIv := input.attachmentKeyIv,
          attachmentKeyAlgorithm := input.attachmentKeyAlgorithm, envelopeVersion := input.envelopeVersion,
          encryptedName := input.encryptedName, encryptionIv := input.encryptionIv,
          encryptionAlgorithm := input.encryptionAlgorithm, uploadedBy := userId } with
    | none => throw (.internal "Failed to create attachment")
    | some attachments =>
      Db.insertSyncEvent { db with attachments := attachments } .itemUpdated input.itemId .item scopedItem.vaultId
        userId scopedItem.version clientId none

/-- `load_attachment_access`: the attachment with the caller's role in its vault. -/
def loadAttachmentAccess (db : Db) (attachmentId userId : String) : Except AppError (ItemAttachment × VaultRole) :=
  match db.attachments.get? attachmentId with
  | none => .error (.notFound "Attachment not found")
  | some a =>
    match db.vaultKeys.rows.find? fun k => k.vaultId = a.vaultId && k.userId = userId with
    | none => .error (.notFound "Attachment not found")
    | some k => .ok (a, k.role)

structure UpdateAttachmentInput where
  attachmentId : String
  encryptedName : String
  encryptionIv : String
  encryptionAlgorithm : String
deriving DecidableEq, Repr

/-- Renames an attachment; its key is not touched. An attachment that is gone by now is
no error. -/
def updateVaultAttachment (mode : DeploymentMode) (seen acl db : Db) (userId : String) (clientId : Option String)
    (input : UpdateAttachmentInput) : Except AppError Db := do
  loadAttachmentActor acl mode userId
  let (attachment, role) ← loadAttachmentAccess seen input.attachmentId userId
  assertItemWriteAccess role "Access denied"
  let item ← loadItemRow db attachment.itemId
  let attachments := db.attachments.updateWhere (fun a => a.id = input.attachmentId) fun a =>
    { a with
      encryptedName := input.encryptedName
      encryptionIv := input.encryptionIv
      encryptionAlgorithm := input.encryptionAlgorithm }
  Db.insertSyncEvent { db with attachments := attachments } .itemUpdated attachment.itemId .item attachment.vaultId
    userId item.version clientId none

def deleteVaultAttachment (mode : DeploymentMode) (seen acl db : Db) (userId : String) (clientId : Option String)
    (attachmentId : String) : Except AppError Db := do
  loadAttachmentActor acl mode userId
  let (attachment, role) ← loadAttachmentAccess seen attachmentId userId
  match role with
  | .owner | .admin => pure ()
  | .member =>
    if attachment.uploadedBy ≠ userId then throw (.forbidden "You can only delete your own attachments")
  | .readOnly => throw (.forbidden "Access denied")
  let item ← loadItemRow acl attachment.itemId
  Db.insertSyncEvent { db with attachments := db.attachments.deleteWhere fun a => a.id = attachmentId } .itemUpdated
    attachment.itemId .item attachment.vaultId userId item.version clientId none

end Bittery
