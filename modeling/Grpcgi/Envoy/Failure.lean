import Grpcgi.Envoy.Filter
import Mathlib.Data.List.Infix

/-!
# Failure before acceptance

What the client sees when the gRPC stream fails before its initial metadata.
The filter has two paths for it that do not know of each other: the null-pointer
branch of `startGrpcStream` sends a local reply, and `onRemoteClose` writes a
close frame and resets the connection, in `Connecting` as in any other state.
Only the first one is an HTTP error reply.
-/

namespace Grpcgi.Envoy

open Incremental (Decoder)

/-! ## Traces only grow -/

section Growth

variable (env : Env) (s : Filter)

theorem emit_grows (e : Effect) : s.trace <+: (s.emit e).trace := List.prefix_append _ _

theorem onRemoteClose_grows : s.trace <+: (onRemoteClose s).trace := by
  by_cases h : s.state = .closed
  · rw [onRemoteClose_closed h]
  · rw [onRemoteClose_open h]
    simp only [List.append_assoc]
    exact List.prefix_append _ _

theorem call_grows (e : Effect) : s.trace <+: (s.call env e).trace := by
  obtain h | h := call_cases e s env <;> rw [h]
  · exact emit_grows s e
  · exact (emit_grows s e).trans (onRemoteClose_grows _)

theorem closeGrpcStream_grows : s.trace <+: (closeGrpcStream env s).trace := by
  unfold closeGrpcStream
  split
  · exact List.prefix_rfl
  · simp only
    split
    · exact call_grows env { s with state := .closing } .closeStream
    · exact List.prefix_rfl

theorem dispatch_grows (frame : WsFrame) : s.trace <+: (dispatch env s frame).1.trace := by
  simp only [dispatch, forwardDataFrame]
  split_ifs
  · exact List.prefix_rfl
  · exact List.prefix_rfl
  · exact call_grows env s _
  · exact call_grows env s _
  · exact List.prefix_rfl
  · exact closeGrpcStream_grows env s
  · exact List.prefix_rfl

theorem leave_scan_grows (raw : Bytes) :
    s.trace <+: (leave (frameDecoder.scan (dispatch env) s raw)).1.trace := by
  have hscan := Decoder.scan_settled frameDecoder (dispatch env)
    (P := fun t => s.trace <+: t.trace) (Q := fun t => s.trace <+: t.trace)
    (fun t frame ht => ⟨fun _ => ht.trans (dispatch_grows env t frame),
      fun _ => ht.trans (dispatch_grows env t frame)⟩) List.prefix_rfl raw
  generalize frameDecoder.scan (dispatch env) s raw = result at hscan
  cases hscan with
  | rest ht => exact ht
  | stopped ht => exact ht
  | fault ht _ => exact ht

theorem processWebSocketData_grows (buf : Bytes) (endStream : Bool) :
    s.trace <+: (processWebSocketData env buf endStream s).trace := by
  by_cases hactive : s.state = .active
  · have hloop := leave_scan_grows env { s with frameRemainder := [] }
      ((s.frameRemainder ++ buf).take uint32Max)
    rw [processWebSocketData_eq env buf endStream hactive]
    generalize leave _ = result at hloop ⊢
    obtain hend | hend := closeAtEnd_cases env endStream result
    · rw [hend]
      exact hloop
    · rw [hend]
      exact hloop.trans (closeGrpcStream_grows env result.1)
  · rw [processWebSocketData, if_pos hactive]
    exact List.prefix_rfl

theorem onDestroy_grows : s.trace <+: (onDestroy s).trace := by
  unfold onDestroy
  simp only
  split
  · exact (emit_grows s .resetGrpcStream).trans (emit_grows _ .destroyed)
  · exact emit_grows _ .destroyed

theorem step_grows (e : Event) : s.trace <+: (step env s e).trace := by
  simp only [step]
  split
  · exact List.prefix_rfl
  · cases e with
    | decodeData data endStream =>
        simp only [decodeData]
        split
        · exact List.prefix_rfl
        · exact List.prefix_rfl
        · exact List.prefix_rfl
        · exact List.prefix_rfl
        · exact processWebSocketData_grows env s data endStream
    | onReceiveInitialMetadata =>
        simp only [onReceiveInitialMetadata]
        split_ifs
        · exact List.prefix_rfl
        · exact processWebSocketData_grows env { s with state := .active } _ _
        · exact List.prefix_rfl
        · exact List.prefix_rfl
    | onReceiveMessage message =>
        simp only [onReceiveMessage]
        split_ifs
        · exact List.prefix_rfl
        · exact call_grows env s _
        · exact call_grows env s _
        · exact List.prefix_rfl
    | onRemoteClose =>
        simp only
        split
        · exact onRemoteClose_grows s
        · exact List.prefix_rfl
    | encodeHeaders => exact emit_grows s _
    | onDestroy => exact onDestroy_grows s

theorem run_grows (events : List Event) : s.trace <+: (run env s events).trace := by
  induction events generalizing s with
  | nil => exact List.prefix_rfl
  | cons e es ih => exact (step_grows env s e).trans (ih (step env s e))

end Growth

/-! ## The outcome for the client -/

/-- The calls that end the downstream stream. -/
def Effect.outcome : Effect → Bool
  | .sendLocalReply _ _ _ => true
  | .resetDownstream => true
  | _ => false

/-- The client gets exactly one terminal outcome, an HTTP error reply, and no
frame bytes ahead of a response head. -/
structure GetsErrorReply (trace : List Effect) : Prop where
  reply : ∃ code body details, trace.filter Effect.outcome = [.sendLocalReply code body details] ∧
    400 ≤ code
  headFirst : ∀ before data endStream after,
    trace = before ++ .addEncodedData data endStream :: after → .encodedHeaders ∈ before

/-- The gRPC stream fails before its initial metadata: `start` returns a null
pointer or closes the stream at once, or a close arrives while connecting. -/
def FailsBeforeAcceptance (outcome : StartOutcome) (events : List Event) : Prop :=
  outcome.stream = false ∨ outcome.remoteClose = true ∨
    ∃ before after, events = before ++ .onRemoteClose :: after ∧
      ∀ e ∈ before, e ≠ .onReceiveInitialMetadata ∧ e ≠ .onRemoteClose ∧ e ≠ .onDestroy

/-- A reset is never part of an error reply, whatever else happens. -/
theorem not_getsErrorReply_of_reset {trace : List Effect} (h : .resetDownstream ∈ trace) :
    ¬ GetsErrorReply trace := by
  rintro ⟨⟨code, body, details, hfilter, _⟩, _⟩
  have hmem : Effect.resetDownstream ∈ trace.filter Effect.outcome :=
    List.mem_filter.mpr ⟨h, rfl⟩
  simp [hfilter] at hmem

theorem reset_of_onRemoteClose {s : Filter} (h : s.state ≠ .closed) :
    .resetDownstream ∈ (onRemoteClose s).trace := by
  rw [onRemoteClose_open h]
  simp

/-- The filter while it waits for the initial metadata. -/
structure Connecting (s : Filter) : Prop where
  state : s.state = .connecting
  grpcCallbacks : s.grpcCallbacks = true
  fault : s.fault = none

theorem Connecting.run {s : Filter} (h : Connecting s) (env : Env) {events : List Event}
    (hevents : ∀ e ∈ events,
      e ≠ .onReceiveInitialMetadata ∧ e ≠ .onRemoteClose ∧ e ≠ .onDestroy) :
    Connecting (run env s events) := by
  induction events generalizing s with
  | nil => exact h
  | cons e es ih =>
      refine ih (s := step env s e) ?_ (fun e' he' => hevents e' (List.mem_cons_of_mem e he'))
      have he := hevents e List.mem_cons_self
      simp only [Envoy.step]
      rw [if_neg (by simp [h.fault])]
      cases e with
      | decodeData data endStream =>
          simp only [decodeData, h.state]
          exact ⟨rfl, h.grpcCallbacks, h.fault⟩
      | onReceiveInitialMetadata => exact absurd rfl he.1
      | onReceiveMessage message =>
          simp only [h.grpcCallbacks, if_true, onReceiveMessage, h.state, ne_eq, reduceCtorEq,
            not_false_eq_true, and_self]
          exact h
      | onRemoteClose => exact absurd rfl he.2.1
      | encodeHeaders => exact ⟨h.state, h.grpcCallbacks, h.fault⟩
      | onDestroy => exact absurd rfl he.2.2

section Opened

variable (config : WsGrpcBridgeConfig) {headers : HeaderMap}

/-- A close inside `start` is a close in `Connecting`. -/
theorem opened_remoteClose (hupgrade : isWebSocketUpgrade headers = true) (stream : Bool) :
    .resetDownstream ∈ (opened config headers ⟨true, stream⟩).trace := by
  simp only [opened, decodeHeaders, hupgrade, if_true, startGrpcStream, Bool.false_eq_true,
    if_false]
  cases stream
  · exact List.mem_append_left _ (reset_of_onRemoteClose (by simp))
  · exact reset_of_onRemoteClose (by simp)

theorem opened_connecting (hupgrade : isWebSocketUpgrade headers = true) :
    Connecting (opened config headers ⟨false, true⟩) := by
  simp only [opened, decodeHeaders, hupgrade, if_true, startGrpcStream]
  exact ⟨rfl, rfl, rfl⟩

end Opened

/-- The filter after a plain null pointer: closed, without a stream, and with
one local reply that nothing written precedes or follows. -/
structure Replied (s : Filter) : Prop where
  state : s.state = .closed
  grpcStream : s.grpcStream = false
  reply : s.trace.filter Effect.outcome = [.sendLocalReply 503
    "WebSocket bridge unavailable".toList "grpc_websocket_bridge_upstream_error".toList]
  silent : ∀ data endStream, .addEncodedData data endStream ∉ s.trace

theorem replied_opened (config : WsGrpcBridgeConfig) {headers : HeaderMap}
    (hupgrade : isWebSocketUpgrade headers = true) :
    Replied (opened config headers ⟨false, false⟩) := by
  simp only [opened, decodeHeaders, hupgrade, if_true, startGrpcStream]
  exact ⟨rfl, rfl, rfl, by simp [Filter.emit]⟩

theorem Replied.emit {s : Filter} (h : Replied s) {e : Effect} (houtcome : e.outcome = false)
    (hdata : ∀ data endStream, e ≠ .addEncodedData data endStream) : Replied (s.emit e) where
  state := h.state
  grpcStream := h.grpcStream
  reply := by
    rw [emit_trace, List.filter_append, h.reply, List.filter_cons_of_neg (by simp [houtcome])]
    rfl
  silent := fun data endStream hmem => by
    obtain hmem | hmem := List.mem_append.mp hmem
    · exact h.silent data endStream hmem
    · exact hdata data endStream (List.mem_singleton.mp hmem).symm

theorem Replied.step {s : Filter} (h : Replied s) (env : Env) (e : Event) :
    Replied (step env s e) := by
  simp only [Envoy.step]
  split
  · exact h
  · cases e with
    | decodeData data endStream => simpa only [decodeData, h.state] using h
    | onReceiveInitialMetadata => simpa [onReceiveInitialMetadata, h.state] using h
    | onReceiveMessage message => simpa [onReceiveMessage, h.state] using h
    | onRemoteClose => simpa [onRemoteClose_closed h.state] using h
    | encodeHeaders => exact h.emit rfl (by simp)
    | onDestroy =>
        have hclosed : Replied { s with state := .closed } :=
          ⟨rfl, h.grpcStream, h.reply, h.silent⟩
        have hdestroyed := hclosed.emit (e := .destroyed) rfl (by simp)
        simpa [onDestroy, h.grpcStream] using hdestroyed

theorem Replied.run {s : Filter} (h : Replied s) (env : Env) (events : List Event) :
    Replied (run env s events) := by
  induction events generalizing s with
  | nil => exact h
  | cons e es ih => exact ih (h.step env e)

theorem Replied.getsErrorReply {s : Filter} (h : Replied s) : GetsErrorReply s.trace where
  reply := ⟨_, _, _, h.reply, by decide⟩
  headFirst := fun before data endStream after htrace => by
    have hmem : .addEncodedData data endStream ∈ s.trace := by simp [htrace]
    exact absurd hmem (h.silent data endStream)

/-- A stream that fails before acceptance gives the client an error reply in
exactly one case: `start` returns a null pointer without having closed the
stream itself. Every other failure goes through `onRemoteClose`. -/
theorem getsErrorReply_iff (env : Env) (config : WsGrpcBridgeConfig) {headers : HeaderMap}
    (hupgrade : isWebSocketUpgrade headers = true) {outcome : StartOutcome}
    {events : List Event} (hfails : FailsBeforeAcceptance outcome events) :
    GetsErrorReply (run env (opened config headers outcome) events).trace ↔
      outcome.stream = false ∧ outcome.remoteClose = false := by
  constructor
  · intro hreply
    have hnoReset : .resetDownstream ∉ (run env (opened config headers outcome) events).trace :=
      fun hmem => not_getsErrorReply_of_reset hmem hreply
    have hnoClose : outcome.remoteClose = false := by
      by_contra hclose
      obtain ⟨remoteClose, stream⟩ := outcome
      rw [Bool.not_eq_false] at hclose
      subst hclose
      exact hnoReset ((run_grows env _ events).subset (opened_remoteClose config hupgrade stream))
    refine ⟨?_, hnoClose⟩
    by_contra hstream
    obtain ⟨remoteClose, stream⟩ := outcome
    rw [Bool.not_eq_false] at hstream
    subst hstream hnoClose
    obtain hnull | hclose | ⟨before, after, rfl, hbefore⟩ := hfails
    · cases hnull
    · cases hclose
    · apply hnoReset
      have hwait := (opened_connecting config hupgrade).run env hbefore
      have hrun :
          run env (opened config headers ⟨false, true⟩) (before ++ .onRemoteClose :: after) =
          run env (onRemoteClose (run env (opened config headers ⟨false, true⟩) before)) after := by
        have hstep : step env (run env (opened config headers ⟨false, true⟩) before)
            .onRemoteClose =
            onRemoteClose (run env (opened config headers ⟨false, true⟩) before) := by
          simp [step, hwait.fault, hwait.grpcCallbacks]
        rw [← hstep]
        simp [run]
      rw [hrun]
      exact (run_grows env _ after).subset (reset_of_onRemoteClose (by simp [hwait.state]))
  · rintro ⟨hstream, hclose⟩
    obtain ⟨remoteClose, stream⟩ := outcome
    subst hstream hclose
    exact ((replied_opened config hupgrade).run env events).getsErrorReply

/-- A refused stream whose client goes on sending: one error reply. -/
theorem getsErrorReply_iff_refused :
    GetsErrorReply (run .quiet
      (opened ⟨"ws".toList, []⟩ [("upgrade".toList, "websocket".toList)] ⟨false, false⟩)
      [.decodeData [0x81, 0x01, 0x41] false, .encodeHeaders, .onDestroy]).trace :=
  (getsErrorReply_iff .quiet _ (by decide) (.inl rfl)).mpr ⟨rfl, rfl⟩

/-- Two failures that do not get the reply: a close that arrives while
connecting, and a close inside a `start` that then returns a null pointer. The
latter issues the close frame, the reset and the local reply. -/
theorem failure_without_errorReply :
    isWebSocketUpgrade [("upgrade".toList, "websocket".toList)] = true ∧
      FailsBeforeAcceptance ⟨false, true⟩ [.onRemoteClose] ∧
      ¬ GetsErrorReply (run .quiet
        (opened ⟨"ws".toList, []⟩ [("upgrade".toList, "websocket".toList)] ⟨false, true⟩)
        [.onRemoteClose]).trace ∧
      FailsBeforeAcceptance ⟨true, false⟩ [] ∧
      ¬ GetsErrorReply (run .quiet
        (opened ⟨"ws".toList, []⟩ [("upgrade".toList, "websocket".toList)] ⟨true, false⟩)
        []).trace :=
  ⟨by decide, .inr (.inr ⟨[], [], rfl, by simp⟩), not_getsErrorReply_of_reset (by decide),
    .inl rfl, not_getsErrorReply_of_reset (by decide)⟩

end Grpcgi.Envoy
