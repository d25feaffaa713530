/-
The two error types of the server: `AppError`, which the domain services return,
and `ApiError`, the problem document the HTTP layer answers with. `ApiError.ofAppError`
is the one place where a domain error gets its status, code and retry hint.

Left out of `ApiError` are the title, the instance and the request id, which nothing
modelled here reads.
-/
import Mathlib.Data.List.Basic

namespace Bittery

/-- `AppErrorCode`. `conflict` and `retryableConflict` serialize alike and differ in the retry hint. -/
inductive AppErrorCode
  | internalServerError | badRequest | notFound | forbidden | unauthorized
  | conflict | retryableConflict | tooManyRequests | payloadTooLarge
  | rotationStaleVaultVersion | rotationStaleMemberSet | rotationStaleItemState | rotationStaleAttachmentState
deriving DecidableEq, Repr

structure AppError where
  code : AppErrorCode
  message : String
deriving DecidableEq, Repr

namespace AppError

def internal (message : String) : AppError := ⟨.internalServerError, message⟩
def badRequest (message : String) : AppError := ⟨.badRequest, message⟩
def notFound (message : String) : AppError := ⟨.notFound, message⟩
def forbidden (message : String) : AppError := ⟨.forbidden, message⟩
def conflict (message : String) : AppError := ⟨.conflict, message⟩
def payloadTooLarge (message : String) : AppError := ⟨.payloadTooLarge, message⟩

/-- What `database_error` makes of a serialization failure or a deadlock (SQLSTATE 40001, 40P01). -/
def retryableConflict : AppError :=
  ⟨.retryableConflict, "A concurrent update interrupted the operation. Retry the request."⟩

end AppError

/-- The wire codes of `ErrorCode` that the modelled handlers answer with. -/
inductive ErrorCode
  | internalError | badRequest | notFound | forbidden | unauthorized | conflict | rateLimited | payloadTooLarge
  | preconditionRequired | versionConflict | invalidPageLimit | invalidCursor
  | invalidIdempotencyKey | idempotencyKeyReused | idempotencyRequestInProgress
  | idempotencyOutcomeIndeterminate | idempotencyResponseUnavailable
  | rotationStaleVaultVersion | rotationStaleMemberSet | rotationStaleItemState | rotationStaleAttachmentState
deriving DecidableEq, Repr

structure ApiError where
  status : Nat
  code : ErrorCode
  detail : String
  retryable : Bool
  retryAfterSeconds : Option Nat := none
deriving DecidableEq, Repr

namespace ApiError

def badRequest (code : ErrorCode) (detail : String) : ApiError := ⟨400, code, detail, false, none⟩
def preconditionRequired (detail : String) : ApiError := ⟨428, .preconditionRequired, detail, false, none⟩
def versionConflict (detail : String) : ApiError := ⟨412, .versionConflict, detail, false, none⟩
def unprocessable (code : ErrorCode) (detail : String) : ApiError := ⟨422, code, detail, false, none⟩
def conflict (code : ErrorCode) (detail : String) : ApiError := ⟨409, code, detail, false, none⟩
def payloadTooLarge (detail : String) : ApiError := ⟨413, .payloadTooLarge, detail, false, none⟩
def serviceUnavailable (code : ErrorCode) (detail : String) : ApiError := ⟨503, code, detail, true, some 1⟩

/-- `From<AppError>`: the text of an internal error is replaced, every other text is passed on. -/
def ofAppError (e : AppError) : ApiError :=
  match e.code with
  | .internalServerError => ⟨500, .internalError, "The server could not complete the request.", false, none⟩
  | .badRequest => ⟨400, .badRequest, e.message, false, none⟩
  | .notFound => ⟨404, .notFound, e.message, false, none⟩
  | .forbidden => ⟨403, .forbidden, e.message, false, none⟩
  | .unauthorized => ⟨401, .unauthorized, e.message, false, none⟩
  | .conflict => ⟨409, .conflict, e.message, false, none⟩
  | .retryableConflict => ⟨409, .conflict, e.message, true, none⟩
  | .tooManyRequests => ⟨429, .rateLimited, e.message, true, some 60⟩
  | .payloadTooLarge => ⟨413, .payloadTooLarge, e.message, false, none⟩
  | .rotationStaleVaultVersion => ⟨409, .rotationStaleVaultVersion, e.message, false, none⟩
  | .rotationStaleMemberSet => ⟨409, .rotationStaleMemberSet, e.message, false, none⟩
  | .rotationStaleItemState => ⟨409, .rotationStaleItemState, e.message, false, none⟩
  | .rotationStaleAttachmentState => ⟨409, .rotationStaleAttachmentState, e.message, false, none⟩

end ApiError

end Bittery
