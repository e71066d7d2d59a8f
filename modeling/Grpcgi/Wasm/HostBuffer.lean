import Grpcgi.Wasm.Relay

/-!
# The filter against the host buffer

The proxy-wasm host keeps the bytes of a callback that was answered `Pause` and
hands them over again, in front of the new ones. In the active state the filter
always answers `Pause` and keeps what it has not parsed in a buffer of its own,
so that its parser reads every retained byte once more with each callback.
-/

namespace Grpcgi.Wasm

open WebSocket (Frame encodeAll)

/-- A filter and the downstream bytes that its host retains. -/
structure Connection where
  filter : WsBridgeStream
  retained : Bytes
  deriving DecidableEq, Repr

namespace Connection

/-- One callback: it covers the retained bytes and the new ones, and its answer
decides what is retained from now on. -/
def receive (env : Env) (conn : Connection) (chunk : Bytes) : Connection :=
  let buffer := conn.retained ++ chunk
  { filter := step env conn.filter (.downstreamData (some buffer))
    retained :=
      match (onDownstreamData env (some buffer) conn.filter).1 with
      | .Continue => []
      | .Pause => buffer }

end Connection

section ExactlyOnce

variable (env : Env) (conn : Connection) {id : UInt32}

end ExactlyOnce

end Grpcgi.Wasm
