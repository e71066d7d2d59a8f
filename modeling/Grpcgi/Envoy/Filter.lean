import Grpcgi.Data.Proto
import Grpcgi.Envoy.Codec

/-!
# The native WebSocket filter

`WsGrpcBridgeFilter` of `ws_grpc_bridge_filter.cc` as a state machine: one
function for each callback, under the source's names. Every call the filter
makes on an Envoy object is appended to `trace`, so that order and number of
calls are visible.

Envoy may call `onRemoteClose` from inside `sendMessage`, `addEncodedData` or
`closeStream`. `Env.reenters` decides this for every single call: it is given the
trace that ends with the call. A failed `ASSERT` or an escaping exception sets
`fault`, and no code of the filter runs after it.
-/

namespace Grpcgi.Envoy

/-- Header names are lower-case, as Envoy keeps them. -/
abbrev HeaderMap := List (Str × Str)

inductive State where
  | passthrough
  | connecting
  | active
  | closing
  | closed
  deriving DecidableEq, Repr

/-- The fields of the filter configuration that the filter reads. -/
structure WsGrpcBridgeConfig where
  clusterName : Str
  authority : Str
  deriving DecidableEq, Repr

/-- What crosses the filter's boundary: the calls it makes, and the two
callbacks whose place among them matters. -/
inductive Effect where
  /-- `grpc_client_.start` with the initial metadata -/
  | start (clusterName authority : Str) (initialMetadata : HeaderMap)
  /-- `grpc_stream_->sendMessage` -/
  | sendMessage (frame : Proto.Frame) (endStream : Bool)
  /-- `grpc_stream_->closeStream` -/
  | closeStream
  /-- `grpc_stream_->resetStream` -/
  | resetGrpcStream
  /-- `encoder_callbacks_->addEncodedData` -/
  | addEncodedData (data : Bytes) (endStream : Bool)
  /-- `decoder_callbacks_->resetStream` -/
  | resetDownstream
  /-- `decoder_callbacks_->sendLocalReply` -/
  | sendLocalReply (code : Nat) (body details : Str)
  /-- a response head passed `encodeHeaders` -/
  | encodedHeaders
  /-- `onDestroy` has run -/
  | destroyed
  deriving DecidableEq, Repr

structure Filter where
  config : WsGrpcBridgeConfig
  state : State := .passthrough
  /-- `grpc_callbacks_ != nullptr` -/
  grpcCallbacks : Bool := false
  /-- `grpc_stream_ != nullptr` -/
  grpcStream : Bool := false
  pendingUpstreamData : Bytes := []
  frameRemainder : Bytes := []
  trace : List Effect := []
  fault : Option Fault := none
  deriving DecidableEq, Repr

/-- Envoy's choice to re-enter `onRemoteClose` from inside the last call of a trace. -/
structure Env where
  reenters : List Effect → Bool

/-- An Envoy that never re-enters. -/
def Env.quiet : Env := ⟨fun _ => false⟩

/-- What `grpc_client_.start` does: it may invoke `onRemoteClose` before it
returns, and it returns a stream or a null pointer. -/
structure StartOutcome where
  remoteClose : Bool
  stream : Bool
  deriving DecidableEq, Repr

inductive FilterHeadersStatus where
  | Continue
  | StopIteration
  deriving DecidableEq, Repr

inductive FilterDataStatus where
  | Continue
  | StopIterationNoBuffer
  deriving DecidableEq, Repr

namespace Filter

/-- Make a call that cannot re-enter the filter. -/
def emit (e : Effect) (s : Filter) : Filter := { s with trace := s.trace ++ [e] }

def fail (e : Fault) (s : Filter) : Filter := { s with fault := some e }

end Filter

/-- `GrpcStreamCallbacks::onRemoteClose`. A re-entry from inside this
`addEncodedData` would find the state `Closed` and return at once. -/
def onRemoteClose (s : Filter) : Filter :=
  if s.state = .closed then s
  else
    let s := { s with state := .closed, grpcStream := false }
    let s := s.emit (.addEncodedData buildCloseFrame true)
    s.emit .resetDownstream

/-- Make a call from inside which Envoy may re-enter `onRemoteClose`. -/
def Filter.call (env : Env) (e : Effect) (s : Filter) : Filter :=
  if env.reenters (s.trace ++ [e]) then onRemoteClose (s.emit e) else s.emit e

/-- `closeGrpcStream`. -/
def closeGrpcStream (env : Env) (s : Filter) : Filter :=
  if s.state ≠ .active then s
  else
    let s := { s with state := .closing }
    if s.grpcStream then s.call env .closeStream else s

/-- `forwardDataFrame`. -/
def forwardDataFrame (env : Env) (frame : WsFrame) (s : Filter) : Filter :=
  if s.state ≠ .active then s.fail .assertActive
  else if s.grpcStream = false then s.fail .assertStream
  else
    s.call env (.sendMessage
      { payload := frame.payload, binary := frame.opcode == kOpcodeBinary } false)

/-- The `switch` over the opcode and the test after it. The second component
says whether the loop goes on. -/
def dispatch (env : Env) (s : Filter) (frame : WsFrame) : Filter × Bool :=
  if frame.opcode = kOpcodeText ∨ frame.opcode = kOpcodeBinary then
    let s := forwardDataFrame env frame s
    (s, s.fault.isNone && s.state == .active)
  else if frame.opcode = kOpcodePing then
    let s := s.call env (.addEncodedData (encodeFrame kOpcodePong frame.payload) false)
    (s, s.state == .active)
  else if frame.opcode = kOpcodePong then
    (s, s.state == .active)
  else if frame.opcode = kOpcodeClose then
    -- the one case that returns whatever the state has become
    (closeGrpcStream env s, false)
  else
    (s, s.state == .active)

/-- The `while` loop over `raw[offset..linearize_len)`. The second component
tells falling out of the loop from returning inside it. -/
def processFrames (env : Env) : Nat → Bytes → Filter → Filter × Bool
  | 0, _, s => (s, true)
  | fuel + 1, raw, s =>
    if raw = [] then (s, true)
    else
      match parseFrame raw with
      | .error e => (s.fail e, false)
      | .ok frame =>
        if frame.complete = false then ({ s with frameRemainder := raw }, true)
        else
          match dispatch env s frame with
          | (s, true) => processFrames env fuel (raw.drop frame.consumed) s
          | (s, false) => (s, false)

/-- `std::numeric_limits<uint32_t>::max()`. -/
def uint32Max : Nat := 2 ^ 32 - 1

/-- `processWebSocketData`. Only `linearizeLen` bytes of the buffer are looked at. -/
def processWebSocketData (env : Env) (buf : Bytes) (endStream : Bool) (s : Filter) : Filter :=
  if s.state ≠ .active then s.fail .assertActive
  else
    let buf := s.frameRemainder ++ buf
    let s := { s with frameRemainder := [] }
    if buf.length = 0 then
      if endStream then closeGrpcStream env s else s
    else
      let linearizeLen := if uint32Max < buf.length then uint32Max else buf.length
      let raw := buf.take linearizeLen
      match processFrames env raw.length raw s with
      | (s, false) => s
      | (s, true) => if endStream && s.state == .active then closeGrpcStream env s else s

/-- `onDestroy`. -/
def onDestroy (s : Filter) : Filter :=
  let s := if s.grpcStream then { s.emit .resetGrpcStream with grpcStream := false } else s
  { s with state := .closed }.emit .destroyed

/-- The initial metadata that `startGrpcStream` assembles: every upgrade header,
copied. -/
def initialMetadata (upgradeHeaders : HeaderMap) : HeaderMap :=
  upgradeHeaders.map fun (key, value) => (asciiLower key, value)

/-- `startGrpcStream`. -/
def startGrpcStream (upgradeHeaders : HeaderMap) (outcome : StartOutcome) (s : Filter) : Filter :=
  if s.grpcCallbacks then s.fail .assertCallbacksUnset
  else
    let s := { s with grpcCallbacks := true }
    let s := s.emit
      (.start s.config.clusterName s.config.authority (initialMetadata upgradeHeaders))
    let s := if outcome.remoteClose then onRemoteClose s else s
    let s := { s with grpcStream := outcome.stream }
    if outcome.stream then s
    else
      { s with state := .closed }.emit (.sendLocalReply 503
        "WebSocket bridge unavailable".toList "grpc_websocket_bridge_upstream_error".toList)

/-- The condition of `decodeHeaders`: the first `Upgrade` value is `websocket`. -/
def isWebSocketUpgrade (headers : HeaderMap) : Bool :=
  match headers.find? fun h => h.1 == "upgrade".toList with
  | none => false
  | some (_, value) => equalsIgnoreCase value "websocket".toList

/-- `decodeHeaders`. -/
def decodeHeaders (headers : HeaderMap) (outcome : StartOutcome) (s : Filter) :
    FilterHeadersStatus × Filter :=
  if isWebSocketUpgrade headers then
    (.StopIteration, startGrpcStream headers outcome { s with state := .connecting })
  else (.Continue, s)

/-- `decodeData`. -/
def decodeData (env : Env) (data : Bytes) (endStream : Bool) (s : Filter) :
    FilterDataStatus × Filter :=
  match s.state with
  | .passthrough => (.Continue, s)
  | .connecting =>
    (.StopIterationNoBuffer, { s with pendingUpstreamData := s.pendingUpstreamData ++ data })
  | .closing | .closed => (.StopIterationNoBuffer, s)
  | .active => (.StopIterationNoBuffer, processWebSocketData env data endStream s)

/-- `GrpcStreamCallbacks::onReceiveInitialMetadata`. -/
def onReceiveInitialMetadata (env : Env) (s : Filter) : Filter :=
  if s.state ≠ .connecting then s
  else
    let s := { s with state := .active }
    if 0 < s.pendingUpstreamData.length then
      processWebSocketData env s.pendingUpstreamData false s
    else s

/-- `GrpcStreamCallbacks::onReceiveMessage`. -/
def onReceiveMessage (env : Env) (message : Proto.Frame) (s : Filter) : Filter :=
  if s.state ≠ .active ∧ s.state ≠ .closing then s
  else
    let opcode := if message.binary then kOpcodeBinary else kOpcodeText
    s.call env (.addEncodedData (encodeFrame opcode message.payload) false)

/-- The callbacks that Envoy may invoke after `decodeHeaders`. -/
inductive Event where
  | decodeData (data : Bytes) (endStream : Bool)
  | onReceiveInitialMetadata
  | onReceiveMessage (message : Proto.Frame)
  | onRemoteClose
  | encodeHeaders
  | onDestroy
  deriving DecidableEq, Repr

/-- One callback. The stream callbacks need the object that `startGrpcStream`
creates: without it Envoy has nothing to call. -/
def step (env : Env) (s : Filter) (e : Event) : Filter :=
  if s.fault.isSome then s
  else
    match e with
    | .decodeData data endStream => (decodeData env data endStream s).2
    | .onReceiveInitialMetadata => if s.grpcCallbacks then onReceiveInitialMetadata env s else s
    | .onReceiveMessage message => if s.grpcCallbacks then onReceiveMessage env message s else s
    | .onRemoteClose => if s.grpcCallbacks then onRemoteClose s else s
    | .encodeHeaders => s.emit .encodedHeaders
    | .onDestroy => onDestroy s

def run (env : Env) (s : Filter) (events : List Event) : Filter := events.foldl (step env) s

/-- The filter after `decodeHeaders`, from its construction. -/
def opened (config : WsGrpcBridgeConfig) (headers : HeaderMap) (outcome : StartOutcome) : Filter :=
  (decodeHeaders headers outcome { config }).2

/-! ## The calls of each helper -/

section Calls

variable (e : Effect) (s : Filter) (env : Env)

@[simp] theorem emit_trace : (s.emit e).trace = s.trace ++ [e] := rfl
@[simp] theorem emit_state : (s.emit e).state = s.state := rfl
@[simp] theorem emit_grpcStream : (s.emit e).grpcStream = s.grpcStream := rfl
@[simp] theorem emit_grpcCallbacks : (s.emit e).grpcCallbacks = s.grpcCallbacks := rfl
@[simp] theorem emit_pending : (s.emit e).pendingUpstreamData = s.pendingUpstreamData := rfl
@[simp] theorem emit_remainder : (s.emit e).frameRemainder = s.frameRemainder := rfl
@[simp] theorem emit_fault : (s.emit e).fault = s.fault := rfl

@[simp] theorem fail_trace (f : Fault) : (s.fail f).trace = s.trace := rfl
@[simp] theorem fail_fault (f : Fault) : (s.fail f).fault = some f := rfl

@[simp] theorem call_quiet : s.call .quiet e = s.emit e := rfl

/-- A second close finds the state `Closed`; this is why a re-entry from inside
`onRemoteClose` does nothing. -/
theorem onRemoteClose_closed {s : Filter} (h : s.state = .closed) : onRemoteClose s = s :=
  if_pos h

/-- Everything a remote close does to an open filter. -/
theorem onRemoteClose_open {s : Filter} (h : s.state ≠ .closed) :
    onRemoteClose s =
      { s with
        state := .closed
        grpcStream := false
        trace := s.trace ++ [.addEncodedData buildCloseFrame true] ++ [.resetDownstream] } :=
  if_neg h

/-- A re-entrant call either only makes the call or also closes the filter. -/
theorem call_cases : s.call env e = s.emit e ∨ s.call env e = onRemoteClose (s.emit e) := by
  simp only [Filter.call]
  split
  · exact .inr rfl
  · exact .inl rfl

end Calls

/-! ## The loop as a scan -/

/-- No frame touches the bytes that are carried over. -/
theorem onRemoteClose_remainder (s : Filter) :
    (onRemoteClose s).frameRemainder = s.frameRemainder := by
  by_cases h : s.state = .closed
  · rw [onRemoteClose_closed h]
  · rw [onRemoteClose_open h]

theorem call_remainder (env : Env) (e : Effect) (s : Filter) :
    (s.call env e).frameRemainder = s.frameRemainder := by
  obtain h | h := call_cases e s env <;> rw [h]
  · rfl
  · rw [onRemoteClose_remainder, emit_remainder]

theorem closeGrpcStream_remainder (env : Env) (s : Filter) :
    (closeGrpcStream env s).frameRemainder = s.frameRemainder := by
  unfold closeGrpcStream
  split
  · rfl
  · simp only
    split
    · rw [call_remainder]
    · rfl

theorem dispatch_remainder (env : Env) (s : Filter) (frame : WsFrame) :
    (dispatch env s frame).1.frameRemainder = s.frameRemainder := by
  simp only [dispatch, forwardDataFrame]
  split_ifs <;> simp only [Filter.fail, call_remainder, closeGrpcStream_remainder]

open Incremental (Exit)

/-- What the loop leaves, given how the scan of the same bytes ended. -/
def leave : Filter × Exit UInt8 Fault → Filter × Bool
  | (s, .rest r) => ({ s with frameRemainder := r }, true)
  | (s, .stopped _) => (s, false)
  | (s, .fault e _) => (s.fail e, false)

/-- The `while` loop is the generic scan of the frame decoder. -/
theorem processFrames_eq (env : Env) (fuel : Nat) (raw : Bytes) (s : Filter)
    (hfuel : raw.length ≤ fuel) (hclear : s.frameRemainder = []) :
    processFrames env fuel raw s = leave (frameDecoder.scan (dispatch env) s raw) := by
  have hkeep : { s with frameRemainder := [] } = s := by
    cases s
    simp_all
  induction fuel generalizing raw s with
  | zero =>
      have hnil : raw = [] := List.length_eq_zero_iff.mp (Nat.le_zero.mp hfuel)
      subst hnil
      rw [Incremental.Decoder.scan_nil, leave, hkeep]
      rfl
  | succ fuel ih =>
      simp only [processFrames]
      split
      · rename_i hnil
        subst hnil
        rw [Incremental.Decoder.scan_nil, leave, hkeep]
      · cases hp : parseFrame raw with
        | error e =>
            have ha : frameDecoder.attempt raw = .fault e := by
              simp only [frameDecoder, attemptFrame, hp]
            rw [Incremental.Decoder.scan_fault s ha, leave]
        | ok frame =>
            simp only
            split
            · rename_i hshort
              have ha : frameDecoder.attempt raw = .more := by
                simp only [frameDecoder, attemptFrame, hp, hshort, Bool.false_eq_true, if_false]
              rw [Incremental.Decoder.scan_more s ha, leave]
            · rename_i hfull
              have ha : frameDecoder.attempt raw = .item frame frame.consumed := by
                simp only [frameDecoder, attemptFrame, hp, Bool.not_eq_false _ ▸ hfull, if_true]
              have hrem := dispatch_remainder env s frame
              have hpos := frameDecoder.size_pos ha
              have hlen : (raw.drop frame.consumed).length ≤ fuel := by
                rw [List.length_drop]
                omega
              rcases hd : dispatch env s frame with ⟨t, _ | _⟩
              · rw [Incremental.Decoder.scan_stop ha hd, leave]
              · rw [hd, hclear] at hrem
                rw [Incremental.Decoder.scan_item ha hd]
                refine ih _ t hlen hrem ?_
                cases t
                simp_all

/-- What `processWebSocketData` does once the loop is done. -/
def closeAtEnd (env : Env) (endStream : Bool) : Filter × Bool → Filter
  | (s, false) => s
  | (s, true) => if endStream && s.state == .active then closeGrpcStream env s else s

theorem closeAtEnd_cases (env : Env) (endStream : Bool) (result : Filter × Bool) :
    closeAtEnd env endStream result = result.1 ∨
      closeAtEnd env endStream result = closeGrpcStream env result.1 := by
  obtain ⟨s, _ | _⟩ := result
  · exact .inl rfl
  · rw [closeAtEnd]
    split
    · exact .inr rfl
    · exact .inl rfl

/-- A call in the active state is the scan of what is left from before and the buffer, up to
the clamp. -/
theorem processWebSocketData_eq (env : Env) (buf : Bytes) (endStream : Bool) {s : Filter}
    (hactive : s.state = .active) :
    processWebSocketData env buf endStream s =
      closeAtEnd env endStream (leave (frameDecoder.scan (dispatch env)
        { s with frameRemainder := [] } ((s.frameRemainder ++ buf).take uint32Max))) := by
  rw [processWebSocketData, if_neg (not_not.mpr hactive)]
  simp only
  split
  · rename_i hempty
    rw [List.length_eq_zero_iff.mp hempty, List.take_nil, Incremental.Decoder.scan_nil]
    simp only [leave, closeAtEnd, hactive, beq_self_eq_true, Bool.and_true]
  · have htake : (s.frameRemainder ++ buf).take
        (if uint32Max < (s.frameRemainder ++ buf).length then uint32Max
          else (s.frameRemainder ++ buf).length) = (s.frameRemainder ++ buf).take uint32Max := by
      split
      · rfl
      · rename_i hsmall
        rw [List.take_length, List.take_of_length_le (Nat.le_of_not_lt hsmall)]
    rw [htake, processFrames_eq env _ _ _ (Nat.le_refl _) rfl]
    generalize leave _ = result
    obtain ⟨t, _ | _⟩ := result <;> rfl

end Grpcgi.Envoy
