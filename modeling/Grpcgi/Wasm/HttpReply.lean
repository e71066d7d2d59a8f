import Grpcgi.Wasm.Dispatch
import Grpcgi.Wasm.HttpDecode

/-!
# The WASM HTTP filter's answer

`on_grpc_call_response` of `wasm/http-bridge/src/lib.rs`: what the filter makes of
the answer to its call. A response of the server becomes the response to the
client, except for what protobuf and the decoder treat as absent: a status of zero
is read as 200 and a header without a key is left out.
-/

namespace Grpcgi.Wasm.HttpBridge

open Protobuf (Field)

/-- `send_http_response`. -/
structure Reply where
  status : UInt32
  headers : List (Str × Str)
  body : Bytes
  deriving DecidableEq, Repr

/-- The answers that the filter gives of its own. -/
def badGateway (body : Str) : Reply := ⟨502, [], utf8Encode body⟩

/-- `on_grpc_call_response`; `body` is what `get_grpc_call_response_body` returns. -/
def onGrpcCallResponse (bits : Nat) (tokenId statusCode : UInt32) (body : Option Bytes)
    (s : HttpBridgeFilter) : Except Trap (Option Reply) :=
  if some tokenId ≠ s.callToken then .ok none
  else if statusCode ≠ 0 then .ok (some (badGateway "grpcgi: gRPC error".toList))
  else
    match body with
    | none => .ok (some (badGateway "grpcgi: empty response".toList))
    | some raw =>
      match decodeHttpResponse bits raw with
      | .error e => .error e
      | .ok (some response) => .ok (some ⟨response.status, response.headers, response.body⟩)
      | .ok none => .ok (some (badGateway "grpcgi: decode error".toList))

/-- A response to somebody else's call is ignored. -/
theorem onGrpcCallResponse_stray {bits : Nat} {tokenId : UInt32} {s : HttpBridgeFilter}
    (h : some tokenId ≠ s.callToken) (statusCode : UInt32) (body : Option Bytes) :
    onGrpcCallResponse bits tokenId statusCode body s = .ok none := if_pos h

/-! ## The call of a request -/

section Call

variable (env : Env) {cluster authority : Str}

/-- A filter that has its call to make. -/
def Uncalled (s : HttpBridgeFilter) : Prop := s.calls = [] ∧ s.callToken = none

/-- A filter that has made the call for a request, once and for the whole request. -/
structure Called (cluster authority : Str) (request : Request) (s : HttpBridgeFilter) : Prop where
  plain : isWebSocketUpgrade request.headers = false
  untrailed : ¬ request.HasTrailers
  calls : s.calls = [handleCall env cluster authority request]
  callToken : s.callToken = env.dispatchGrpcCall []

theorem dispatchHandle_token {s : HttpBridgeFilter} (h : Uncalled s) :
    (dispatchHandle env s).callToken = env.dispatchGrpcCall [] := by
  obtain ⟨hcalls, htoken⟩ := h
  simp only [dispatchHandle, hcalls]
  split
  · rename_i token hdispatch
    exact hdispatch.symm
  · rename_i hdispatch
    rw [hdispatch]
    exact htoken

/-- A request that passes through is left alone. -/
theorem run_passthrough {s : HttpBridgeFilter} (h : s.passthrough = true)
    (events : List RequestEvent)
    (hbody : ∀ e ∈ events, ∀ headers endOfStream, e ≠ .headers headers endOfStream) :
    run env s events = s := by
  induction events with
  | nil => rfl
  | cons e events ih =>
      obtain ⟨he, hevents⟩ := List.forall_mem_cons.mp hbody
      have hstep : (step env s e).2 = s := by
        cases e with
        | headers headers endOfStream => exact absurd rfl (he headers endOfStream)
        | body chunk endOfStream => simp only [step, onHttpRequestBody, h, if_true]
        | trailers => rfl
      simp only [run, List.foldl_cons, hstep]
      exact ih hevents

/-- The callbacks after the first are not for headers. -/
theorem events_tail (request : Request) : ∃ endOfStream rest,
    request.events = .headers request.headers endOfStream :: rest ∧
      ∀ e ∈ rest, ∀ headers endOfStream, e ≠ .headers headers endOfStream := by
  obtain ⟨headers, body⟩ := request
  cases body with
  | none => exact ⟨true, [], rfl, by simp⟩
  | chunks chunks last =>
      refine ⟨false, _, rfl, ?_⟩
      simp only [List.mem_append, List.mem_map, List.mem_singleton]
      rintro e (⟨chunk, -, rfl⟩ | rfl) <;> simp
  | trailed chunks =>
      refine ⟨false, _, rfl, ?_⟩
      simp only [List.mem_append, List.mem_map, List.mem_singleton]
      rintro e (⟨chunk, -, rfl⟩ | rfl) <;> simp

theorem uncalled_upgrade {request : Request} (hupgrade : isWebSocketUpgrade request.headers = true)
    {before : List RequestEvent} (h : before <+: request.events) :
    Uncalled (run env { cluster, authority } before) := by
  obtain ⟨endOfStream, rest, hevents, hrest⟩ := events_tail request
  rw [hevents] at h
  cases before with
  | nil => exact ⟨rfl, rfl⟩
  | cons e before =>
      obtain ⟨rfl, hbefore⟩ := List.cons_prefix_cons.mp h
      have hstep : (step env { cluster, authority } (.headers request.headers endOfStream)).2 =
          { cluster, authority, passthrough := true } := by
        simp only [step, onHttpRequestHeaders, hupgrade, if_true]
      have hrun : run env { cluster, authority } (.headers request.headers endOfStream :: before) =
          run env { cluster, authority, passthrough := true } before := by
        rw [← hstep]
        rfl
      rw [hrun, run_passthrough env rfl before fun e he => hrest e (hbefore.subset he)]
      exact ⟨rfl, rfl⟩

theorem uncalled_begun {headers : List (Str × Str)} (hplain : isWebSocketUpgrade headers = false)
    {chunks : List (Option Bytes)} {before : List RequestEvent}
    (h : before <+: begun headers chunks) :
    Uncalled (run env { cluster, authority } before) := by
  cases before with
  | nil => exact ⟨rfl, rfl⟩
  | cons e es =>
      obtain ⟨rfl, hes⟩ := List.cons_prefix_cons.mp h
      obtain ⟨some, -, rfl⟩ := List.prefix_map_iff.mp hes
      have hrun : run env { cluster, authority }
          (.headers headers false :: some.map (.body · false)) = _ := run_begun env hplain some
      rw [hrun]
      exact ⟨rfl, rfl⟩

variable (cluster authority)

/-- Without trailers the last callback makes the call. -/
theorem called_events {request : Request} (hplain : isWebSocketUpgrade request.headers = false)
    (huntrailed : ¬ request.HasTrailers) :
    Called env cluster authority request (run env { cluster, authority } request.events) := by
  obtain ⟨headers, body⟩ := request
  cases body with
  | none =>
      have hrun : run env { cluster, authority } (Request.events ⟨headers, .none⟩) =
          dispatchHandle env { cluster, authority, reqHeaders := headers } := by
        simp only [Request.events, run, List.foldl_cons, List.foldl_nil, step,
          onHttpRequestHeaders, hplain, Bool.false_eq_true, if_false, if_true]
      rw [hrun]
      exact ⟨hplain, huntrailed, dispatchHandle_calls env _, dispatchHandle_token env ⟨rfl, rfl⟩⟩
  | chunks chunks last =>
      have hbytes : Request.bytes chunks ++ last.getD [] = Request.bytes (chunks ++ [last]) := by
        rw [Request.bytes, Request.bytes, List.flatMap_append, List.flatMap_singleton]
      have hrun : run env { cluster, authority } (Request.events ⟨headers, .chunks chunks last⟩) =
          dispatchHandle env { waiting cluster authority headers (Request.bytes (chunks ++ [last]))
            with bodyPending := false } := by
        rw [events_chunks, run_append, run_begun env hplain, ← hbytes, ← step_last]
        rfl
      rw [hrun]
      exact ⟨hplain, huntrailed, dispatchHandle_calls env _, dispatchHandle_token env ⟨rfl, rfl⟩⟩
  | trailed chunks => exact absurd ⟨chunks, rfl⟩ huntrailed

/-- At every callback of a request the filter has made no call, or the request is
over and it has made its one call. -/
theorem uncalled_or_called {request : Request} {before : List RequestEvent}
    (h : before <+: request.events) :
    Uncalled (run env { cluster, authority } before) ∨
      before = request.events ∧
        Called env cluster authority request (run env { cluster, authority } before) := by
  by_cases hupgrade : isWebSocketUpgrade request.headers = true
  · exact .inl (uncalled_upgrade env hupgrade h)
  have hplain : isWebSocketUpgrade request.headers = false := Bool.not_eq_true _ ▸ hupgrade
  obtain ⟨headers, body⟩ := request
  cases body with
  | none =>
      obtain rfl | ⟨rest, rfl, hrest⟩ := List.prefix_cons_iff.mp h
      · exact .inl ⟨rfl, rfl⟩
      · obtain rfl := List.prefix_nil.mp hrest
        exact .inr ⟨rfl, called_events env cluster authority hplain (by rintro ⟨chunks, ⟨⟩⟩)⟩
  | chunks chunks last =>
      rw [events_chunks] at h
      obtain rfl | hbegun := List.prefix_concat_iff.mp h
      · exact .inr ⟨rfl, called_events env cluster authority hplain (by rintro ⟨chunks, ⟨⟩⟩)⟩
      · exact .inl (uncalled_begun env hplain hbegun)
  | trailed chunks =>
      rw [events_trailed] at h
      obtain rfl | hbegun := List.prefix_concat_iff.mp h
      · left
        rw [run_append]
        exact uncalled_begun env hplain List.prefix_rfl
      · exact .inl (uncalled_begun env hplain hbegun)

end Call

/-! ## Every response of a server -/

/-- The response that the client gets. -/
def replyOf (r : Proto.HttpResponse) : Reply where
  status := if r.status = 0 then 200 else r.status
  headers := (r.headers.filter fun h => !h.key.isEmpty).map fun h => (h.key, h.value)
  body := r.body

/-- The header fields, those without a key passed over. -/
theorem foldl_keyed {header : Bytes → Option (Str × Str)} {headers : List Proto.Header}
    (hread : ∀ h ∈ headers, header (Protobuf.encode h.fields) =
      if h.key.isEmpty then none else some (h.key, h.value)) (response : Response) :
    (headers.map fun h =>
      (⟨2, .len (Protobuf.encode h.fields), Protobuf.isNumber_two⟩ : Field)).foldl
        (Response.set header) response =
      { response with headers := response.headers ++
          (headers.filter fun h => !h.key.isEmpty).map fun h => (h.key, h.value) } := by
  induction headers generalizing response with
  | nil => simp only [List.map_nil, List.foldl_nil, List.filter_nil, List.append_nil]
  | cons h headers ih =>
      obtain ⟨hfirst, hread⟩ := List.forall_mem_cons.mp hread
      rw [List.map_cons, List.foldl_cons, ih hread]
      simp only [Response.set, hfirst]
      cases hkey : h.key.isEmpty <;> simp [hkey]

theorem foldl_wire {header : Bytes → Option (Str × Str)} {r : Proto.HttpResponse}
    (hread : ∀ h ∈ r.headers, header (Protobuf.encode h.fields) =
      if h.key.isEmpty then none else some (h.key, h.value)) :
    (r.fields none).foldl (Response.set header) {} =
      ⟨(replyOf r).status, (replyOf r).headers, (replyOf r).body⟩ := by
  rw [Proto.HttpResponse.fields, List.foldl_append, List.foldl_append, List.foldl_append]
  have hstatus : (if r.status = 0 then [] else
      [⟨1, .varint r.status.toUInt64, Protobuf.isNumber_one⟩] : List Field).foldl
        (Response.set header) {} = { status := (replyOf r).status } := by
    by_cases hzero : r.status = 0
    · simp [hzero, replyOf]
    · simp [hzero, replyOf, Response.set]
  rw [hstatus, foldl_keyed hread]
  by_cases hbody : r.body = []
  · simp [hbody, replyOf]
  · simp [hbody, replyOf, Response.set]

/-- `decode_http_response` on everything that a server can answer. -/
theorem decodeHttpResponse_any {bits : Nat} {r : Proto.HttpResponse} (hbits : 32 ≤ bits)
    (hsize : (r.wire none).length < 2 ^ 31) :
    decodeHttpResponse bits (r.wire none) =
      .ok (some ⟨(replyOf r).status, (replyOf r).headers, (replyOf r).body⟩) := by
  have hpow : 2 ^ 32 ≤ 2 ^ bits := Nat.pow_le_pow_right (by omega) hbits
  have hheader : ∀ h ∈ r.headers, decodeHeader bits (Protobuf.encode h.fields) =
      .ok (if h.key.isEmpty then none else some (h.key, h.value)) := by
    intro h hmem
    have hfield : (⟨2, .len (Protobuf.encode h.fields), Protobuf.isNumber_two⟩ : Field) ∈
        r.fields none :=
      List.mem_append_left _ (List.mem_append_left _ (List.mem_append_right _
        (List.mem_map_of_mem hmem)))
    have hlength : (Protobuf.encode h.fields).length ≤ (r.wire none).length :=
      Protobuf.length_data_le hfield rfl
    rw [encode_headerFields] at hlength ⊢
    exact decodeHeader_wire (by omega) (by omega)
  let header (data : Bytes) : Option (Str × Str) :=
    match decodeHeader bits data with
    | .ok header => header
    | .error _ => none
  have hreads : ∀ f ∈ r.fields none, ReadsHeader bits header f := by
    intro f hf data hnumber hvalue
    obtain ⟨h, hmem, rfl⟩ := mem_fields_header hf hnumber hvalue
    simp only [header, hheader h hmem]
  have hlist : ∀ h ∈ r.headers, header (Protobuf.encode h.fields) =
      if h.key.isEmpty then none else some (h.key, h.value) := by
    intro h hmem
    simp only [header, hheader h hmem]
  have hparse := Protobuf.parse_encode (Protobuf.fits_of_length (show _ < 2 ^ 64 by
    exact Nat.lt_trans hsize (by decide)))
  rw [← foldl_wire hlist]
  exact decodeHttpResponse_parse hparse (by omega) hreads

end Grpcgi.Wasm.HttpBridge
