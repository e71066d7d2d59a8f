import Grpcgi.Data.Text

/-!
# The messages of `grpcgi.v1`

The protobuf messages of `http.proto` and `websocket.proto` that the programs
build or read, as values. Fields that no program touches are left out.
-/

namespace Grpcgi.Proto

/-- `Frame`: one WebSocket data frame payload. -/
structure Frame where
  payload : Bytes
  binary : Bool
  deriving DecidableEq, Repr

/-- The `value_kind` oneof of `Header`. -/
inductive ValueKind where
  | unset
  | value (value : Str)
  | rawValue (rawValue : Bytes)
  deriving DecidableEq, Repr

structure Header where
  key : Str
  valueKind : ValueKind
  deriving DecidableEq, Repr

/-- Reading field `value` of a message whose oneof holds something else gives
the default. -/
def Header.value (h : Header) : Str :=
  match h.valueKind with
  | .value v => v
  | _ => []

structure RequestHeaders where
  headers : List Header
  endOfStream : Bool := false
  deriving DecidableEq, Repr

structure ResponseHeaders where
  status : UInt32
  headers : List Header
  endOfStream : Bool := false
  deriving DecidableEq, Repr

structure BodyChunk where
  data : Bytes
  endOfStream : Bool
  deriving DecidableEq, Repr

structure Trailers where
  headers : List Header
  deriving DecidableEq, Repr

/-- `ProcessingRequest`; a message may arrive with its oneof unset. -/
inductive ProcessingRequest where
  | requestHeaders (headers : RequestHeaders)
  | requestBody (chunk : BodyChunk)
  | requestTrailers (trailers : Trailers)
  | unset
  deriving DecidableEq, Repr

/-- `ProcessingResponse`, with the two arms that the bridge sends. -/
inductive ProcessingResponse where
  | responseHeaders (headers : ResponseHeaders)
  | responseBody (chunk : BodyChunk)
  deriving DecidableEq, Repr

/-- `HttpRequest` of the unary call. -/
structure HttpRequest where
  headers : List Header
  body : Bytes
  deriving DecidableEq, Repr

/-- `HttpResponse` of the unary call. -/
structure HttpResponse where
  status : UInt32
  headers : List Header
  body : Bytes
  deriving DecidableEq, Repr

end Grpcgi.Proto
