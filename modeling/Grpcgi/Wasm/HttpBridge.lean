import Grpcgi.Wasm.Filter

/-!
# The WASM HTTP filter, request side

`HttpBridgeFilter` of `wasm/http-bridge/src/lib.rs`: the request callbacks and
`dispatch_handle`, with the encoding of the message they dispatch. As in the
WebSocket filter, what the host answers is an argument or part of `Env`, and its
answers to `dispatch_grpc_call` are recorded in `calls`.
-/

namespace Grpcgi.Wasm.HttpBridge

/-- The call of the filter on its host. -/
inductive Call where
  /-- `dispatch_grpc_call` with the token it returned, or `none` for an error -/
  | dispatchGrpcCall (upstream service method : Str) (initialMetadata : List (Str × Bytes))
      (message : Bytes) (timeoutSecs : Nat) (result : Option UInt32)
  deriving DecidableEq, Repr

structure HttpBridgeFilter where
  cluster : Str
  authority : Str
  callToken : Option UInt32 := none
  reqHeaders : List (Str × Str) := []
  reqBody : Bytes := []
  passthrough : Bool := false
  /-- the body has to be waited for before dispatching -/
  bodyPending : Bool := false
  calls : List Call := []
  deriving DecidableEq, Repr

/-- The host's answer to `dispatch_grpc_call` after the given calls. -/
structure Env where
  dispatchGrpcCall : List Call → Option UInt32

/-! ## Encoding of `HttpRequest` -/

/-- `write_varint`. -/
def writeVarint (v : UInt64) : Bytes := Wasm.writeVarint v

/-- `push_len_field`. -/
def pushLenField (fieldNum : UInt64) (data : Bytes) : Bytes :=
  let tag := (fieldNum <<< 3) ||| 2
  writeVarint tag ++ writeVarint (UInt64.ofNat data.length) ++ data

/-- `encode_http_request`. -/
def encodeHttpRequest (headers : List (Str × Str)) (body : Bytes) : Bytes :=
  headers.flatMap (fun (k, v) =>
    pushLenField 1 (pushLenField 1 (utf8Encode k) ++ pushLenField 2 (utf8Encode v))) ++
  if body.isEmpty then [] else pushLenField 2 body

/-! ## The request callbacks -/

/-- `dispatch_handle`. -/
def dispatchHandle (env : Env) (s : HttpBridgeFilter) : HttpBridgeFilter :=
  let msg := encodeHttpRequest s.reqHeaders s.reqBody
  let initialMeta :=
    if s.authority.isEmpty then [] else [(":authority".toList, utf8Encode s.authority)]
  let result := env.dispatchGrpcCall s.calls
  let s := { s with calls := s.calls ++ [Call.dispatchGrpcCall s.cluster
    "grpcgi.v1.HttpBridge".toList "Handle".toList initialMeta msg 30 result] }
  match result with
  | some token => { s with callToken := some token }
  | none => { s with passthrough := true }

/-- The test at the top of `on_http_request_headers`. -/
def isWebSocketUpgrade (headers : List (Str × Str)) : Bool :=
  headers.any fun (k, v) =>
    equalsIgnoreCase k "upgrade".toList && equalsIgnoreCase v "websocket".toList

/-- `on_http_request_headers`. -/
def onHttpRequestHeaders (env : Env) (headers : List (Str × Str)) (endOfStream : Bool)
    (s : HttpBridgeFilter) : Action × HttpBridgeFilter :=
  if isWebSocketUpgrade headers then (.Continue, { s with passthrough := true })
  else
    let s := { s with reqHeaders := headers }
    if endOfStream then
      let s := dispatchHandle env s
      (if s.passthrough then .Continue else .Pause, s)
    else (.Continue, { s with bodyPending := true })

/-- `on_http_request_body`. -/
def onHttpRequestBody (env : Env) (chunk : Option Bytes) (endOfStream : Bool)
    (s : HttpBridgeFilter) : Action × HttpBridgeFilter :=
  if s.passthrough then (.Continue, s)
  else if !s.bodyPending then (.Continue, s)
  else
    let s :=
      match chunk with
      | some chunk => { s with reqBody := s.reqBody ++ chunk }
      | none => s
    if endOfStream then
      let s := dispatchHandle env { s with bodyPending := false }
      (if s.passthrough then .Continue else .Pause, s)
    else (.Continue, s)

/-- The request callbacks of the host. For trailers the filter keeps the default
callback, which does nothing. -/
inductive RequestEvent where
  | headers (headers : List (Str × Str)) (endOfStream : Bool)
  | body (chunk : Option Bytes) (endOfStream : Bool)
  | trailers
  deriving DecidableEq, Repr

def step (env : Env) (s : HttpBridgeFilter) : RequestEvent → Action × HttpBridgeFilter
  | .headers headers endOfStream => onHttpRequestHeaders env headers endOfStream s
  | .body chunk endOfStream => onHttpRequestBody env chunk endOfStream s
  | .trailers => (.Continue, s)

def run (env : Env) (s : HttpBridgeFilter) (events : List RequestEvent) : HttpBridgeFilter :=
  events.foldl (fun s e => (step env s e).2) s

/-- The answers to the header and body callbacks of a run. -/
def actions (env : Env) : HttpBridgeFilter → List RequestEvent → List Action
  | _, [] => []
  | s, .trailers :: events => actions env (step env s .trailers).2 events
  | s, e :: events => (step env s e).1 :: actions env (step env s e).2 events

/-! ## Requests as the host delivers them -/

/-- How a request goes on after its headers. -/
inductive RequestBody where
  | none
  | chunks (chunks : List (Option Bytes)) (last : Option Bytes)
  | trailed (chunks : List (Option Bytes))
  deriving DecidableEq, Repr

structure Request where
  headers : List (Str × Str)
  body : RequestBody
  deriving DecidableEq, Repr

/-- The callbacks of a request. Nothing follows the one with `end_of_stream`,
and before trailers no body callback has it. -/
def Request.events (request : Request) : List RequestEvent :=
  match request.body with
  | .none => [.headers request.headers true]
  | .chunks chunks last =>
    .headers request.headers false :: (chunks.map (.body · false) ++ [.body last true])
  | .trailed chunks => .headers request.headers false :: (chunks.map (.body · false) ++ [.trailers])

/-- A dispatch that the host accepts does not let the request pass through. -/
theorem dispatchHandle_passthrough (env : Env) (s : HttpBridgeFilter)
    (h : (env.dispatchGrpcCall s.calls).isSome) :
    (dispatchHandle env s).passthrough = s.passthrough := by
  obtain ⟨token, htoken⟩ := Option.isSome_iff_exists.mp h
  simp only [dispatchHandle, htoken]

/-- A request is held back from the router exactly when it has no body: the
headers of every other request are answered `Continue`. -/
theorem paused_iff (env : Env) (hdispatch : ∀ calls, (env.dispatchGrpcCall calls).isSome)
    (cluster authority : Str) (request : Request)
    (hplain : isWebSocketUpgrade request.headers = false) :
    (∀ a ∈ actions env { cluster, authority } request.events, a = .Pause) ↔
      request.body = .none := by
  have hheaders : onHttpRequestHeaders env request.headers false { cluster, authority } =
      (.Continue, { cluster, authority, reqHeaders := request.headers, bodyPending := true }) := by
    simp only [onHttpRequestHeaders, hplain, Bool.false_eq_true, if_false]
  have hproceeds : ∀ events, ¬ ∀ a ∈ actions env { cluster, authority }
      (.headers request.headers false :: events), a = .Pause := by
    intro events hall
    have hfirst := hall _ List.mem_cons_self
    simp only [step, hheaders] at hfirst
    cases hfirst
  obtain ⟨headers, body⟩ := request
  cases body with
  | none =>
      refine ⟨fun _ => rfl, ?_⟩
      rintro - a ha
      have hpass := dispatchHandle_passthrough env { cluster, authority, reqHeaders := headers }
        (hdispatch _)
      have haction : (onHttpRequestHeaders env headers true { cluster, authority }).1 = .Pause := by
        simp only [onHttpRequestHeaders, hplain, Bool.false_eq_true, if_false, if_true, hpass]
      rw [← haction]
      exact List.mem_singleton.mp ha
  | chunks chunks last =>
      refine ⟨fun hall => absurd hall (hproceeds _), ?_⟩
      rintro ⟨⟩
  | trailed chunks =>
      refine ⟨fun hall => absurd hall (hproceeds _), ?_⟩
      rintro ⟨⟩

/-- A request without a body. -/
def getRequest : Request := ⟨[(":method".toList, "GET".toList)], .none⟩

theorem paused_iff_get :
    isWebSocketUpgrade getRequest.headers = false ∧
      ∀ a ∈ actions ⟨fun _ => some 1⟩ { cluster := "grpcgi".toList, authority := [] }
        getRequest.events, a = .Pause :=
  ⟨by decide, (paused_iff ⟨fun _ => some 1⟩ (fun _ => rfl) _ _ getRequest (by decide)).mpr rfl⟩

/-- A request with a body in two chunks: its headers and its first chunk go on
to the router. -/
theorem request_with_body_proceeds :
    isWebSocketUpgrade [(":method".toList, "POST".toList)] = false ∧
      actions ⟨fun _ => some 1⟩ { cluster := "grpcgi".toList, authority := [] }
        (Request.events ⟨[(":method".toList, "POST".toList)],
          .chunks [some [0x61]] (some [0x62])⟩) = [.Continue, .Continue, .Pause] := by
  decide

end Grpcgi.Wasm.HttpBridge
