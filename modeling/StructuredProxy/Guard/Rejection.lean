import StructuredProxy.Lib.Headers
import StructuredProxy.Request.Json

/-!
# Rejections

A guard that turns a request away answers it over HTTP and marks the answer with what it means in gRPC
terms. The two directions of the status mapping are here because the marks use both: `reject` derives
the HTTP status from a code, and an HTTP answer that carries no code of its own gets one back.
-/

namespace StructuredProxy.Guard

open Lib

abbrev Headers := HeaderMap Text Text

/-- The status codes of gRPC, in the order of their numbers. -/
inductive Code where
  | ok
  | cancelled
  | unknown
  | invalidArgument
  | deadlineExceeded
  | notFound
  | alreadyExists
  | permissionDenied
  | resourceExhausted
  | failedPrecondition
  | aborted
  | outOfRange
  | unimplemented
  | internal
  | unavailable
  | dataLoss
  | unauthenticated
  deriving DecidableEq

def Code.number (code : Code) : Nat := code.ctorIdx

def grpcCodeName : Code → Text
  | .ok => str "OK"
  | .cancelled => str "CANCELLED"
  | .unknown => str "UNKNOWN"
  | .invalidArgument => str "INVALID_ARGUMENT"
  | .deadlineExceeded => str "DEADLINE_EXCEEDED"
  | .notFound => str "NOT_FOUND"
  | .alreadyExists => str "ALREADY_EXISTS"
  | .permissionDenied => str "PERMISSION_DENIED"
  | .resourceExhausted => str "RESOURCE_EXHAUSTED"
  | .failedPrecondition => str "FAILED_PRECONDITION"
  | .aborted => str "ABORTED"
  | .outOfRange => str "OUT_OF_RANGE"
  | .unimplemented => str "UNIMPLEMENTED"
  | .internal => str "INTERNAL"
  | .unavailable => str "UNAVAILABLE"
  | .dataLoss => str "DATA_LOSS"
  | .unauthenticated => str "UNAUTHENTICATED"

def grpcToHttpStatus : Code → Nat
  | .ok => 200
  | .cancelled => 499
  | .unknown => 500
  | .invalidArgument => 400
  | .deadlineExceeded => 504
  | .notFound => 404
  | .alreadyExists => 409
  | .permissionDenied => 403
  | .resourceExhausted => 429
  | .failedPrecondition => 400
  | .aborted => 409
  | .outOfRange => 400
  | .unimplemented => 501
  | .internal => 500
  | .unavailable => 503
  | .dataLoss => 500
  | .unauthenticated => 401

def httpToGrpcCode (status : Nat) : Code :=
  match status with
  | 400 => .invalidArgument
  | 401 => .unauthenticated
  | 403 => .permissionDenied
  | 404 => .notFound
  | 409 => .aborted
  | 429 => .resourceExhausted
  | 499 => .cancelled
  | 501 => .unimplemented
  | 503 => .unavailable
  | 504 => .deadlineExceeded
  | status => if 500 ≤ status && status ≤ 599 then .internal else .unknown

/-- A response's body; `held` is one that keeps a value alive until it ends. -/
inductive Body where
  | empty
  | json (value : Json)
  | raw (bytes : Text)
  | held (body : Body)

structure Rejection where
  code : Code
  message : Text
  deriving DecidableEq

structure Response where
  status : Nat
  headers : Headers
  body : Body
  rejection : Option Rejection

def contentType : Text := str "content-type"
def retryAfter : Text := str "retry-after"

/-- The shape of the transcoder's own errors, with empty `details`. -/
def guardErrorBody (code : Code) (message : Text) : Json :=
  .object [(str "error", .string (grpcCodeName code)), (str "message", .string message),
    (str "code", .number (decimal code.number)), (str "details", .array [])]

def markRejection (response : Response) (code : Code) (message : Text) : Response :=
  { response with rejection := some ⟨code, message⟩ }

def reject (code : Code) (message : Text) : Response :=
  markRejection
    { status := grpcToHttpStatus code
      headers := ⟨[(contentType, str "application/json")]⟩
      body := .json (guardErrorBody code message)
      rejection := none }
    code message

def Response.insertHeader (response : Response) (name value : Text) : Response :=
  { response with headers := response.headers.insert name value }

end StructuredProxy.Guard
