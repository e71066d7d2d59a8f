import Grpcgi.Envoy.Filter

/-!
# The client-to-upstream path of the native filter

What the filter should do with a client's byte stream is a function of the
bytes alone: handle the complete frames one by one, up to the first Close.
`relayStep` is that function on parsed frames and `streamEffects` the same on
RFC 6455 frames. The results below say that `decodeData` and
`onReceiveInitialMetadata` compute it, wherever the stream is cut and whenever
the gRPC stream becomes ready.

The invariant has two phases. Before the initial metadata, everything received
is in `pendingUpstreamData`. After it, the relayed effects are those of the
bytes received so far, and `frameRemainder` is what that scan left.
-/

namespace Grpcgi.Envoy

open WebSocket (Frame encodeAll)
open Incremental (Decoder Exit foldWhile)

/-- The effects of one parsed frame. -/
def frameEffects (frame : WsFrame) : List Effect :=
  if frame.opcode = kOpcodeText ∨ frame.opcode = kOpcodeBinary then
    [.sendMessage { payload := frame.payload, binary := frame.opcode == kOpcodeBinary } false]
  else if frame.opcode = kOpcodePing then
    [.addEncodedData (encodeFrame kOpcodePong frame.payload) false]
  else if frame.opcode = kOpcodeClose then [.closeStream]
  else []

/-- The ideal relay: append the effects of a frame, and stop after a Close. -/
def relayStep (effects : List Effect) (frame : WsFrame) : List Effect × Bool :=
  (effects ++ frameEffects frame, frame.opcode != kOpcodeClose)

/-- The effects of a list of frames: each exactly once, in order, up to and
including the first Close. -/
def streamEffects : List Frame → List Effect
  | [] => []
  | f :: fs =>
    if f.IsClose then [.closeStream]
    else if f.IsData then
      .sendMessage { payload := f.payload, binary := decide f.IsBinary } false :: streamEffects fs
    else if f.IsPing then
      .addEncodedData (encodeFrame kOpcodePong f.payload) false :: streamEffects fs
    else streamEffects fs

/-- The calls that belong to the client-to-upstream path: messages and the half
close upstream, Pong frames downstream. -/
def Effect.relayed : Effect → Bool
  | .sendMessage _ _ => true
  | .closeStream => true
  | .addEncodedData data _ => data.head? == some 0x8A
  | _ => false

@[simp] theorem relayed_message (p : Bytes) (binary : Bool) (endStream : Bool) :
    (Effect.addEncodedData (encodeFrame (if binary then kOpcodeBinary else kOpcodeText) p)
      endStream).relayed = false := by
  cases binary <;> simp only [Effect.relayed, encodeFrame, List.head?_cons] <;>
    decide

@[simp] theorem filter_frameEffects (frame : WsFrame) :
    (frameEffects frame).filter Effect.relayed = frameEffects frame := by
  simp only [frameEffects]
  split_ifs
  · rfl
  · have hpong : (Effect.addEncodedData (encodeFrame kOpcodePong frame.payload) false).relayed := by
      simp only [Effect.relayed, encodeFrame, List.head?_cons]
      decide
    rw [List.filter_cons_of_pos hpong, List.filter_nil]
  · rfl
  · rfl

/-- The ideal relay on the view of RFC 6455 frames. -/
theorem foldWhile_relayStep (frames : List Frame) (effects : List Effect) :
    (foldWhile relayStep effects (frames.map frameView)).1 = effects ++ streamEffects frames := by
  induction frames generalizing effects with
  | nil => simp [foldWhile, streamEffects]
  | cons f fs ih =>
      have htext : UInt8.ofNat f.opcode.val = kOpcodeText ↔ f.IsText := f.byte_text
      have hbinary : UInt8.ofNat f.opcode.val = kOpcodeBinary ↔ f.IsBinary := f.byte_binary
      have hclose : UInt8.ofNat f.opcode.val = kOpcodeClose ↔ f.IsClose := f.byte_close
      have hping : UInt8.ofNat f.opcode.val = kOpcodePing ↔ f.IsPing := f.byte_ping
      by_cases hc : f.IsClose
      · have hstop : (UInt8.ofNat f.opcode.val != kOpcodeClose) = false := by
          simpa using hclose.mpr hc
        have hdata : ¬ (f.IsText ∨ f.IsBinary) := Frame.not_data_of_close hc
        have hnping : ¬ f.IsPing := Frame.not_ping_of_close hc
        simp only [List.map_cons, foldWhile, relayStep, frameView, hstop, frameEffects, htext,
          hbinary, hping, hclose, if_neg hdata, if_neg hnping, if_pos hc, streamEffects]
      · have hgo : (UInt8.ofNat f.opcode.val != kOpcodeClose) = true := by
          simpa using fun h => hc (hclose.mp h)
        simp only [List.map_cons, foldWhile, relayStep, frameView, hgo, ih, frameEffects, htext,
          hbinary, hping, hclose, if_neg hc, streamEffects, List.append_assoc]
        by_cases hdata : f.IsData
        · have hopcode : f.IsText ∨ f.IsBinary := hdata
          rw [if_pos hdata, if_pos hopcode]
          simp [beq_eq_decide, hbinary]
        · have hopcode : ¬ (f.IsText ∨ f.IsBinary) := hdata
          rw [if_neg hdata, if_neg hopcode]
          by_cases hp : f.IsPing
          · simp [if_pos hp]
          · simp [if_neg hp]

/-! ## One call of `processWebSocketData` -/

/-- The filter while the loop runs: what it has relayed is `base`, from before
the stream begins, and the effects so far. -/
structure Live (base : List Effect) (s : Filter) (effects : List Effect) : Prop where
  state : s.state = .active
  grpcStream : s.grpcStream = true
  grpcCallbacks : s.grpcCallbacks = true
  fault : s.fault = none
  relayed : s.trace.filter Effect.relayed = base ++ effects

/-- The filter after a Close frame. -/
structure HalfClosed (base : List Effect) (s : Filter) (effects : List Effect) : Prop where
  state : s.state = .closing
  grpcCallbacks : s.grpcCallbacks = true
  fault : s.fault = none
  relayed : s.trace.filter Effect.relayed = base ++ effects

section Base

variable {base : List Effect}

/-- A call on a live filter that nothing re-enters. -/
theorem Live.emit {s : Filter} {effects : List Effect} (h : Live base s effects) (e : Effect) :
    Live base (s.emit e) (effects ++ [e].filter Effect.relayed) where
  state := h.state
  grpcStream := h.grpcStream
  grpcCallbacks := h.grpcCallbacks
  fault := h.fault
  relayed := by rw [emit_trace, List.filter_append, h.relayed, List.append_assoc]

/-- The bytes that are carried over play no part. -/
theorem Live.carry {s : Filter} {effects : List Effect} (h : Live base s effects) (r : Bytes) :
    Live base { s with frameRemainder := r } effects :=
  ⟨h.state, h.grpcStream, h.grpcCallbacks, h.fault, h.relayed⟩

/-- A call outside the client-to-upstream path. -/
theorem HalfClosed.emit {s : Filter} {effects : List Effect} (h : HalfClosed base s effects)
    {e : Effect} (he : e.relayed = false) : HalfClosed base (s.emit e) effects where
  state := h.state
  grpcCallbacks := h.grpcCallbacks
  fault := h.fault
  relayed := by
    rw [emit_trace, List.filter_append, List.filter_cons_of_neg (by simp [he]), List.filter_nil,
      List.append_nil, h.relayed]

/-- A data frame on a live filter is one message. -/
theorem Live.forwardDataFrame {s : Filter} {effects : List Effect} (h : Live base s effects)
    (frame : WsFrame) :
    forwardDataFrame .quiet frame s =
      s.emit (.sendMessage
        { payload := frame.payload, binary := frame.opcode == kOpcodeBinary } false) := by
  simp only [Envoy.forwardDataFrame]
  rw [if_neg (not_not.mpr h.state), if_neg (by simp [h.grpcStream]), call_quiet]

/-- A Close frame on a live filter is one half close. -/
theorem Live.closeGrpcStream {s : Filter} {effects : List Effect} (h : Live base s effects) :
    HalfClosed base (closeGrpcStream .quiet s) (effects ++ [.closeStream]) := by
  simp only [Envoy.closeGrpcStream]
  rw [if_neg (not_not.mpr h.state)]
  simp only [h.grpcStream, if_true, call_quiet]
  exact {
    state := rfl
    grpcCallbacks := h.grpcCallbacks
    fault := h.fault
    relayed := by
      rw [emit_trace, List.filter_append, h.relayed, List.append_assoc]
      rfl }

/-- The dispatch of one frame follows the ideal relay. -/
theorem Live.dispatch {s : Filter} {effects : List Effect} (h : Live base s effects)
    (frame : WsFrame) :
    ∃ s' effects' go, dispatch .quiet s frame = (s', go) ∧
      relayStep effects frame = (effects', go) ∧
      (go = true → Live base s' effects') ∧ (go = false → HalfClosed base s' effects') := by
  by_cases hc : frame.opcode = kOpcodeClose
  · have heffects : frameEffects frame = [.closeStream] := by
      simp [frameEffects, hc, kOpcodeClose, kOpcodeText, kOpcodeBinary, kOpcodePing]
    refine ⟨Envoy.closeGrpcStream .quiet s, effects ++ [.closeStream], false, ?_, ?_, by simp,
      fun _ => h.closeGrpcStream⟩
    · simp [Envoy.dispatch, hc, kOpcodeClose, kOpcodeText, kOpcodeBinary, kOpcodePing,
        kOpcodePong]
    · simp [relayStep, heffects, hc]
  · have hgo : (frame.opcode != kOpcodeClose) = true := by simpa using hc
    simp only [Envoy.dispatch]
    by_cases hdata : frame.opcode = kOpcodeText ∨ frame.opcode = kOpcodeBinary
    · rw [if_pos hdata, h.forwardDataFrame]
      simp only [emit_fault, emit_state, h.fault, h.state, Option.isNone_none, beq_self_eq_true,
        Bool.and_self]
      refine ⟨_, _, true, rfl, by rw [relayStep, hgo], fun _ => ?_, by simp⟩
      rw [frameEffects, if_pos hdata]
      exact h.emit _
    · rw [if_neg hdata]
      by_cases hping : frame.opcode = kOpcodePing
      · rw [if_pos hping, call_quiet]
        simp only [emit_state, h.state, beq_self_eq_true]
        refine ⟨_, _, true, rfl, by rw [relayStep, hgo], fun _ => ?_, by simp⟩
        have heffects : frameEffects frame =
            [.addEncodedData (encodeFrame kOpcodePong frame.payload) false] := by
          rw [frameEffects, if_neg hdata, if_pos hping]
        have hfilter := filter_frameEffects frame
        rw [heffects] at hfilter ⊢
        rw [← hfilter]
        exact h.emit _
      · have heffects : frameEffects frame = [] := by
          rw [frameEffects, if_neg hdata, if_neg hping, if_neg hc]
        refine ⟨s, effects, true, ?_, by rw [relayStep, hgo, heffects, List.append_nil],
          fun _ => h, by simp⟩
        simp [hping, hc, h.state]

/-- How the filter stands after the ideal relay has run over the bytes received. -/
def Follows (base : List Effect) (s : Filter) : List Effect × Exit UInt8 Fault → Prop
  | (effects, .rest r) => Live base s effects ∧ s.frameRemainder = r
  | (effects, .stopped _) => HalfClosed base s effects
  | (_, .fault _ _) => False

/-- `processWebSocketData` resumes the ideal relay with the bytes carried over. -/
theorem Live.processWebSocketData {s : Filter} {effects : List Effect} (h : Live base s effects)
    (buf : Bytes) (hclamp : (s.frameRemainder ++ buf).length ≤ uint32Max)
    (hfault : ∀ t e r,
      frameDecoder.scan relayStep effects (s.frameRemainder ++ buf) ≠ (t, .fault e r)) :
    Follows base (processWebSocketData .quiet buf false s)
      (frameDecoder.scan relayStep effects (s.frameRemainder ++ buf)) := by
  have hrel := Decoder.scan_related frameDecoder (R := Live base) (S := HalfClosed base)
    (fun _ _ a ha => ha.dispatch a) (h.carry []) (s.frameRemainder ++ buf)
  rw [processWebSocketData_eq .quiet buf false h.state, List.take_of_length_le hclamp]
  generalize frameDecoder.scan (Envoy.dispatch .quiet) _ _ = real at hrel ⊢
  generalize frameDecoder.scan relayStep effects (s.frameRemainder ++ buf) = ideal
    at hrel hfault ⊢
  cases hrel with
  | rest hlive => exact ⟨hlive.carry _, rfl⟩
  | stopped hstop => exact hstop
  | fault _ => exact hfault _ _ _ rfl

/-! ## Runs -/

/-- A callback that neither closes the stream from upstream nor ends the
client's side. -/
def Event.plain : Event → Bool
  | .decodeData _ endStream => !endStream
  | .onRemoteClose => false
  | .onDestroy => false
  | _ => true

def Event.bytes : Event → Bytes
  | .decodeData data _ => data
  | _ => []

/-- The client's byte stream, as the callbacks deliver it. -/
def received (events : List Event) : Bytes := events.flatMap Event.bytes

/-- The bytes of a cut-off frame that are carried to the next call. -/
def carried (bs : Bytes) : Bytes :=
  match (frameDecoder.scan relayStep [] bs).2 with
  | .rest r => r
  | _ => []

/-- No call meets the 32-bit clamp of `processWebSocketData`: what is carried
over and the new chunk are together shorter than 2^32 bytes. -/
def WithinClamp : Bytes → List Bytes → Prop
  | _, [] => True
  | bs, c :: cs => (carried bs ++ c).length ≤ uint32Max ∧ WithinClamp (bs ++ c) cs

theorem carried_length (bs : Bytes) : (carried bs).length ≤ bs.length := by
  rw [carried]
  rcases h : frameDecoder.scan relayStep [] bs with ⟨es, r | r | ⟨e, r⟩⟩
  · exact (Decoder.rest_suffix _ _ h).length_le
  · exact Nat.zero_le _
  · exact Nat.zero_le _

/-- A short enough stream never meets the clamp. -/
theorem withinClamp_of_length {bs : Bytes} {chunks : List Bytes}
    (h : (bs ++ chunks.flatten).length ≤ uint32Max) : WithinClamp bs chunks := by
  induction chunks generalizing bs with
  | nil => trivial
  | cons c cs ih =>
      have hcarried := carried_length bs
      simp only [List.flatten_cons, List.length_append] at h
      refine ⟨?_, ih ?_⟩
      · rw [List.length_append]
        omega
      · simpa only [List.append_assoc, List.length_append] using h

/-- A call outside the client-to-upstream path changes nothing that it uses. -/
theorem Follows.emit {s : Filter} {ideal : List Effect × Exit UInt8 Fault}
    (h : Follows base s ideal) {e : Effect} (he : e.relayed = false) :
    Follows base (s.emit e) ideal := by
  have hfilter : [e].filter Effect.relayed = [] := List.filter_cons_of_neg (by simp [he])
  obtain ⟨effects, r | r | ⟨f, r⟩⟩ := ideal
  · have hlive := h.1.emit e
    rw [hfilter, List.append_nil] at hlive
    exact ⟨hlive, h.2⟩
  · exact HalfClosed.emit h he
  · exact h

theorem Follows.fault {s : Filter} {ideal : List Effect × Exit UInt8 Fault}
    (h : Follows base s ideal) :
    s.fault = none := by
  obtain ⟨effects, r | r | ⟨f, r⟩⟩ := ideal
  · exact h.1.fault
  · exact HalfClosed.fault h
  · exact h.elim

theorem Follows.grpcCallbacks {s : Filter} {ideal : List Effect × Exit UInt8 Fault}
    (h : Follows base s ideal) : s.grpcCallbacks = true := by
  obtain ⟨effects, r | r | ⟨f, r⟩⟩ := ideal
  · exact h.1.grpcCallbacks
  · exact HalfClosed.grpcCallbacks h
  · exact h.elim

theorem Follows.open {s : Filter} {ideal : List Effect × Exit UInt8 Fault}
    (h : Follows base s ideal) :
    s.state = .active ∨ s.state = .closing := by
  obtain ⟨effects, r | r | ⟨f, r⟩⟩ := ideal
  · exact .inl h.1.state
  · exact .inr (HalfClosed.state h)
  · exact h.elim

theorem Follows.relayed {s : Filter} {ideal : List Effect × Exit UInt8 Fault}
    (h : Follows base s ideal) : s.trace.filter Effect.relayed = base ++ ideal.1 := by
  obtain ⟨effects, r | r | ⟨f, r⟩⟩ := ideal
  · exact h.1.relayed
  · exact HalfClosed.relayed h
  · exact h.elim

/-- The invariant of the accepted phase, over one callback. -/
theorem Follows.step {s : Filter} {bs : Bytes} {e : Event}
    (h : Follows base s (frameDecoder.scan relayStep [] bs)) (hplain : e.plain = true)
    (hclamp : (carried bs ++ e.bytes).length ≤ uint32Max)
    (hfault : ∀ t f r, frameDecoder.scan relayStep [] (bs ++ e.bytes) ≠ (t, .fault f r)) :
    Follows base (step .quiet s e) (frameDecoder.scan relayStep [] (bs ++ e.bytes)) := by
  simp only [Envoy.step]
  rw [if_neg (by simp [h.fault])]
  cases e with
  | decodeData data endStream =>
      have hend : endStream = false := by simpa [Event.plain] using hplain
      subst hend
      simp only [Event.bytes] at hclamp hfault ⊢
      rw [Decoder.scan_append] at hfault ⊢
      rw [carried] at hclamp
      rcases hscan : frameDecoder.scan relayStep [] bs with ⟨effects, r | r | ⟨f, r⟩⟩ <;>
        rw [hscan] at h hfault hclamp
      · obtain ⟨hlive, rfl⟩ := h
        simp only [decodeData, hlive.state]
        exact hlive.processWebSocketData data hclamp hfault
      · simp only [decodeData, h.state]
        exact h
      · exact h.elim
  | onReceiveInitialMetadata =>
      have hstate : s.state ≠ .connecting := by
        obtain hs | hs := h.open <;> simp [hs]
      simp only [Event.bytes, List.append_nil, h.grpcCallbacks, if_true,
        onReceiveInitialMetadata, if_pos hstate]
      exact h
  | onReceiveMessage message =>
      have hstate : ¬ (s.state ≠ .active ∧ s.state ≠ .closing) := by
        obtain hs | hs := h.open <;> simp [hs]
      simp only [Event.bytes, List.append_nil, h.grpcCallbacks, if_true, onReceiveMessage,
        if_neg hstate, call_quiet]
      exact h.emit (relayed_message _ _ _)
  | encodeHeaders =>
      simp only [Event.bytes, List.append_nil]
      exact h.emit rfl
  | onRemoteClose => simp [Event.plain] at hplain
  | onDestroy => simp [Event.plain] at hplain

/-- The invariant of the accepted phase, over a run. -/
theorem Follows.run {s : Filter} {bs : Bytes}
    (h : Follows base s (frameDecoder.scan relayStep [] bs)) (events : List Event)
    (hplain : ∀ e ∈ events, e.plain = true)
    (hclamp : WithinClamp bs (events.map Event.bytes))
    (hfault : ∀ t f r, frameDecoder.scan relayStep [] (bs ++ received events) ≠ (t, .fault f r)) :
    Follows base (run .quiet s events)
      (frameDecoder.scan relayStep [] (bs ++ received events)) := by
  induction events generalizing s bs with
  | nil => simpa [received, Envoy.run] using h
  | cons e es ih =>
      have hsplit : bs ++ received (e :: es) = (bs ++ e.bytes) ++ received es := by
        simp [received]
      rw [hsplit] at hfault ⊢
      have hone := h.step (hplain e List.mem_cons_self) hclamp.1
        (Decoder.scan_prefix_no_fault hfault)
      exact ih hone (fun e' he' => hplain e' (List.mem_cons_of_mem e he')) hclamp.2 hfault

end Base

/-- The filter before the initial metadata: everything received is buffered. -/
structure Waiting (s : Filter) (bs : Bytes) : Prop where
  state : s.state = .connecting
  grpcStream : s.grpcStream = true
  grpcCallbacks : s.grpcCallbacks = true
  fault : s.fault = none
  pending : s.pendingUpstreamData = bs
  remainder : s.frameRemainder = []
  relayed : s.trace.filter Effect.relayed = []

theorem waiting_opened (config : WsGrpcBridgeConfig) {headers : HeaderMap}
    (hupgrade : isWebSocketUpgrade headers = true) :
    Waiting (opened config headers ⟨false, true⟩) [] := by
  simp only [opened, decodeHeaders, hupgrade, if_true, startGrpcStream]
  exact ⟨rfl, rfl, rfl, rfl, rfl, rfl, rfl⟩

/-- The invariant of the waiting phase, over one callback. -/
theorem Waiting.step {s : Filter} {bs : Bytes} (h : Waiting s bs) {e : Event}
    (hplain : e.plain = true) (hready : e ≠ .onReceiveInitialMetadata) :
    Waiting (step .quiet s e) (bs ++ e.bytes) := by
  simp only [Envoy.step]
  rw [if_neg (by simp [h.fault])]
  cases e with
  | decodeData data endStream =>
      simp only [decodeData, h.state, Event.bytes]
      exact ⟨rfl, h.grpcStream, h.grpcCallbacks, h.fault, congrArg (· ++ data) h.pending,
        h.remainder, h.relayed⟩
  | onReceiveInitialMetadata => exact absurd rfl hready
  | onReceiveMessage message =>
      simp only [h.grpcCallbacks, if_true, onReceiveMessage, h.state, ne_eq, reduceCtorEq,
        not_false_eq_true, and_self, Event.bytes, List.append_nil]
      exact h
  | encodeHeaders =>
      simp only [Event.bytes, List.append_nil]
      refine ⟨h.state, h.grpcStream, h.grpcCallbacks, h.fault, h.pending, h.remainder, ?_⟩
      rw [emit_trace, List.filter_append, h.relayed]
      rfl
  | onRemoteClose => simp [Event.plain] at hplain
  | onDestroy => simp [Event.plain] at hplain

theorem Waiting.run {s : Filter} {bs : Bytes} (h : Waiting s bs) (events : List Event)
    (hplain : ∀ e ∈ events, e.plain = true) (hready : .onReceiveInitialMetadata ∉ events) :
    Waiting (run .quiet s events) (bs ++ received events) := by
  induction events generalizing s bs with
  | nil => simpa [received, Envoy.run] using h
  | cons e es ih =>
      have hone := h.step (hplain e List.mem_cons_self) (List.ne_of_not_mem_cons hready).symm
      have hsplit : bs ++ received (e :: es) = (bs ++ e.bytes) ++ received es := by
        simp [received]
      rw [hsplit]
      exact ih hone (fun e' he' => hplain e' (List.mem_cons_of_mem e he'))
        (List.not_mem_of_not_mem_cons hready)

/-- The initial metadata hands everything buffered to the parser at once. -/
theorem Waiting.step_ready {s : Filter} {bs : Bytes} (h : Waiting s bs) :
    Envoy.step .quiet s .onReceiveInitialMetadata =
      if 0 < bs.length then processWebSocketData .quiet bs false { s with state := .active }
      else { s with state := .active } := by
  simp only [Envoy.step, onReceiveInitialMetadata]
  rw [if_neg (by simp [h.fault])]
  simp only [if_pos h.grpcCallbacks, if_neg (not_not.mpr h.state), h.pending]

theorem Waiting.ready {s : Filter} {bs : Bytes} (h : Waiting s bs)
    (hclamp : bs.length ≤ uint32Max)
    (hfault : ∀ t f r, frameDecoder.scan relayStep [] bs ≠ (t, .fault f r)) :
    Follows [] (Envoy.step .quiet s .onReceiveInitialMetadata)
      (frameDecoder.scan relayStep [] bs) := by
  have hlive : Live [] { s with state := .active } [] :=
    ⟨rfl, h.grpcStream, h.grpcCallbacks, h.fault, h.relayed⟩
  have hrun := hlive.processWebSocketData bs (by simpa [h.remainder] using hclamp)
    (by simpa [h.remainder] using hfault)
  rw [h.step_ready]
  split
  · simpa only [h.remainder, List.nil_append] using hrun
  · rename_i hpos
    have hnil : bs = [] := List.length_eq_zero_iff.mp (by omega)
    subst hnil
    rw [Decoder.scan_nil]
    exact ⟨hlive, h.remainder⟩

/-- A stream of well-formed frames and a cut-off one, under the ideal relay. -/
theorem scan_frames (frames : List Frame) {tail : Bytes} (htail : WebSocket.Partial tail) :
    (frameDecoder.scan relayStep [] (encodeAll frames ++ tail)).1 = streamEffects frames ∧
      ∀ t f r, frameDecoder.scan relayStep [] (encodeAll frames ++ tail) ≠ (t, .fault f r) := by
  have hfold := foldWhile_relayStep frames []
  obtain ⟨t, ⟨hrun, hscan⟩ | ⟨hrun, unread, hscan⟩⟩ :=
    Decoder.scan_flatMap relayStep (fun g (_ : g ∈ frames) => attemptFrame_encode g)
      (attemptFrame_incomplete htail) ([] : List Effect)
  all_goals
    rw [hrun, List.nil_append] at hfold
    rw [encodeAll, hscan]
    exact ⟨hfold, by simp⟩

/-- Neither where the client's stream is cut nor when the gRPC stream becomes
ready has an influence on what is relayed: it is always the frames of the
stream, each once and in order, up to the first Close. -/
theorem relay_eq_streamEffects (config : WsGrpcBridgeConfig) {headers : HeaderMap}
    (hupgrade : isWebSocketUpgrade headers = true) (frames : List Frame) (tail : Bytes)
    (htail : WebSocket.Partial tail) (hlength : (encodeAll frames ++ tail).length < 2 ^ 32)
    {events : List Event} (hplain : ∀ e ∈ events, e.plain = true)
    (hreceived : received events = encodeAll frames ++ tail)
    (hready : .onReceiveInitialMetadata ∈ events) :
    (run .quiet (opened config headers ⟨false, true⟩) events).trace.filter Effect.relayed =
      streamEffects frames := by
  obtain ⟨hideal, hfault⟩ := scan_frames frames htail
  obtain ⟨before, after, rfl, hfirst⟩ := List.eq_append_cons_of_mem hready
  have hcut : received before ++ received after = encodeAll frames ++ tail := by
    simpa [received, Event.bytes] using hreceived
  have hclamp : (received before ++ received after).length ≤ uint32Max := by
    rw [hcut]
    exact Nat.le_sub_one_of_lt hlength
  rw [← hcut] at hfault hideal
  have hwait := (waiting_opened config hupgrade).run before
    (fun e he => hplain e (by simp [he])) hfirst
  rw [List.nil_append] at hwait
  have hstart := hwait.ready (by simp only [List.length_append] at hclamp; omega)
    (Decoder.scan_prefix_no_fault hfault)
  have hend := hstart.run after (fun e he => hplain e (by simp [he]))
    (withinClamp_of_length hclamp) hfault
  have hrun : run .quiet (opened config headers ⟨false, true⟩)
      (before ++ .onReceiveInitialMetadata :: after) =
      run .quiet (step .quiet (run .quiet (opened config headers ⟨false, true⟩) before)
        .onReceiveInitialMetadata) after := by
    simp [run]
  rw [hrun, hend.relayed, List.nil_append, hideal]

/-- A masked text frame cut inside its key while the stream is connecting, then
a Ping, a Close and the beginning of a frame that is never handled. -/
theorem relay_eq_streamEffects_cut :
    (run .quiet
      (opened ⟨"ws".toList, []⟩ [("upgrade".toList, "WebSocket".toList)] ⟨false, true⟩)
      [.decodeData [0x81, 0x82, 1, 2] false, .onReceiveInitialMetadata,
        .decodeData [3, 4, 0x49, 0x6B, 0x89] false,
        .decodeData [0x01, 7, 0x88, 0x00, 0x82] false]).trace.filter Effect.relayed =
      [.sendMessage { payload := [0x48, 0x69], binary := false } false,
        .addEncodedData [0x8A, 0x01, 7] false, .closeStream] :=
  relay_eq_streamEffects _ (by decide)
    [⟨true, 0, 1, some fun i => UInt8.ofNat (i.val + 1), .short, [0x48, 0x69], by decide⟩,
      ⟨true, 0, 9, none, .short, [7], by decide⟩, ⟨true, 0, 8, none, .short, [], by decide⟩]
    [0x82] ⟨⟨true, 0, 2, none, .short, [], by decide⟩, by decide, by decide⟩
    (by decide) (by decide) (by decide) (by decide)

end Grpcgi.Envoy
