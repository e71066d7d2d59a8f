import Grpcgi.Envoy.Relay
import Grpcgi.Wasm.FrameProto
import Grpcgi.Wasm.Relay
import Grpcgi.WebSocket.Message

/-!
# Fragmented messages in the two filters

Both filters parse the FIN bit and then look at the opcode alone: a frame is
forwarded exactly when it is text or binary. The continuation frames of a
fragmented message are dropped, so that a message arrives whole only when its
continuations are empty. How much a filter can hold is a condition of its own: the native
one cuts what a call has at hand to 32 bits of length.
-/

namespace Grpcgi

open WebSocket (Frame encodeAll Sends dataPayload messagePayload)

/-! ## The WASM filter -/

namespace Wasm

/-- The payload that a receiver reads from a `Frame` message. -/
def sentPayload (message : Bytes) : Bytes :=
  match decodeFrameProto 64 message with
  | .ok (some frame) => frame.payload
  | _ => []

/-- A data frame's message carries the payload of the frame. -/
theorem sentPayload_frameMessage (f : Frame) : sentPayload (frameMessage f) = f.payload := by
  have hpayload := f.payload_lt
  have hvarint := length_writeVarint (UInt64.ofNat f.payload.length)
  have hwidth : (encodeFrameProto f.payload (decide f.IsBinary)).length < 2 ^ 64 := by
    simp only [encodeFrameProto]
    split_ifs <;>
      simp only [List.length_append, List.length_cons, List.length_nil] <;> omega
  rw [sentPayload, frameMessage, decodeFrameProto_encode _ _ hwidth (by omega)]

/-- What the WASM filter sends upstream for a stream of messages: the payload of
the data frames alone. -/
theorem deliver_payload {env : Env} {s : WsBridgeStream} {id : UInt32} (hopen : Open s id)
    {begun : Option Bytes} {frames : List Frame} {messages : List Bytes}
    (hsends : Sends begun frames messages)
    (hwidth : ∀ f ∈ frames, f.encode.length < 2 ^ env.bits) {chunks : List Bytes}
    (hchunks : chunks.flatten = encodeAll frames) :
    (sentMessages (deliver env s chunks).calls).flatMap sentPayload =
      (sentMessages s.calls).flatMap sentPayload ++ dataPayload frames := by
  rw [deliver_frames hopen hsends.not_close hwidth rfl (by rw [hchunks, List.append_nil])]
  simp only [WsBridgeStream.calling]
  rw [sentMessages_append, sentMessages_frames, List.flatMap_append, List.flatMap_map]
  simp only [sentPayload_frameMessage, dataPayload]

end Wasm

/-! ## The native filter -/

namespace Envoy

/-- The payloads of the `Frame` messages in a trace. -/
def sentPayload (trace : List Effect) : Bytes :=
  trace.flatMap fun
    | .sendMessage frame _ => frame.payload
    | _ => []

/-- Messages are relayed calls. -/
theorem sentPayload_relayed (trace : List Effect) :
    sentPayload (trace.filter Effect.relayed) = sentPayload trace := by
  induction trace with
  | nil => rfl
  | cons e es ih =>
      have hcons (es : List Effect) :
          sentPayload (e :: es) = sentPayload [e] ++ sentPayload es := by
        simp [sentPayload]
      rw [hcons es, ← ih]
      by_cases he : e.relayed = true
      · rw [List.filter_cons_of_pos he, hcons]
      · rw [List.filter_cons_of_neg he]
        cases e with
        | sendMessage frame endStream => exact absurd rfl he
        | _ => rfl

theorem sentPayload_streamEffects {frames : List Frame} (hclose : ∀ f ∈ frames, ¬ f.IsClose) :
    sentPayload (streamEffects frames) = dataPayload frames := by
  induction frames with
  | nil => rfl
  | cons f fs ih =>
      have hrest := ih fun g hg => hclose g (List.mem_cons_of_mem f hg)
      rw [streamEffects, if_neg (hclose f List.mem_cons_self), WebSocket.dataPayload_cons, ← hrest]
      by_cases hdata : f.IsData
      · rw [if_pos hdata, if_pos hdata]
        rfl
      · rw [if_neg hdata, if_neg hdata]
        split <;> rfl

/-- An active filter with its stream, between two frames. -/
structure Ready (s : Filter) : Prop where
  state : s.state = .active
  grpcStream : s.grpcStream = true
  grpcCallbacks : s.grpcCallbacks = true
  frameRemainder : s.frameRemainder = []
  fault : s.fault = none

theorem Ready.follows {s : Filter} (h : Ready s) :
    Follows (s.trace.filter Effect.relayed) s (frameDecoder.scan relayStep [] []) := by
  rw [Incremental.Decoder.scan_nil]
  refine ⟨⟨h.state, h.grpcStream, h.grpcCallbacks, h.fault, ?_⟩, h.frameRemainder⟩
  rw [List.append_nil]

theorem sentPayload_append (xs ys : List Effect) :
    sentPayload (xs ++ ys) = sentPayload xs ++ sentPayload ys := List.flatMap_append

/-- What the native filter sends upstream for a stream of messages: the payload
of the data frames alone. -/
theorem run_payload {s : Filter} (hready : Ready s) {begun : Option Bytes} {frames : List Frame}
    {messages : List Bytes} (hsends : Sends begun frames messages) {chunks : List Bytes}
    (hclamp : WithinClamp [] chunks) (hchunks : chunks.flatten = encodeAll frames) :
    sentPayload (run .quiet s (chunks.map fun c => .decodeData c false)).trace =
      sentPayload s.trace ++ dataPayload frames := by
  have hbytes : (chunks.map fun c => Event.decodeData c false).map Event.bytes = chunks := by
    rw [List.map_map]
    exact List.map_id chunks
  have hreceived : received (chunks.map fun c => Event.decodeData c false) =
      encodeAll frames ++ [] := by
    rw [received, List.flatMap_def, hbytes, hchunks, List.append_nil]
  obtain ⟨hideal, hfault⟩ := scan_frames frames WebSocket.partial_nil
  have hend := hready.follows.run (chunks.map fun c => Event.decodeData c false)
    (by simp [Event.plain]) (by rwa [hbytes])
    (by rw [List.nil_append, hreceived]; exact hfault)
  rw [← sentPayload_relayed, hend.relayed, List.nil_append, hreceived, hideal,
    sentPayload_append, sentPayload_relayed, sentPayload_streamEffects hsends.not_close]

end Envoy

/-! ## Both filters -/

/-- The WASM filter sends all bytes of the messages upstream. -/
def Wasm.Arrives (env : Env) (s : WsBridgeStream) (chunks messages : List Bytes) : Prop :=
  (sentMessages (deliver env s chunks).calls).flatMap sentPayload =
    (sentMessages s.calls).flatMap sentPayload ++ messages.flatten

/-- So does the native filter. -/
def Envoy.Arrives (t : Filter) (chunks messages : List Bytes) : Prop :=
  sentPayload (run .quiet t (chunks.map fun c => .decodeData c false)).trace =
    sentPayload t.trace ++ messages.flatten

def ContinuationsEmpty (frames : List Frame) : Prop :=
  ∀ f ∈ frames, f.IsContinuation → f.payload = []

instance (frames : List Frame) : Decidable (ContinuationsEmpty frames) :=
  List.decidableBAll _ frames

/-- Every frame fits into the memory of the WASM filter, and no call of the native filter meets
its 32-bit clamp. -/
structure StreamFits (bits : Nat) (frames : List Frame) (chunks : List Bytes) : Prop where
  width : ∀ f ∈ frames, f.encode.length < 2 ^ bits
  clamp : Envoy.WithinClamp [] chunks

theorem Wasm.arrives_iff {frames : List Frame} {messages : List Bytes}
    (hsends : Sends none frames messages) {chunks : List Bytes}
    (hchunks : chunks.flatten = encodeAll frames) {env : Env} {s : WsBridgeStream} {id : UInt32}
    (hopen : Open s id) (hwidth : ∀ f ∈ frames, f.encode.length < 2 ^ env.bits) :
    Arrives env s chunks messages ↔ ContinuationsEmpty frames := by
  rw [Arrives, deliver_payload hopen hsends hwidth hchunks, hsends.flatten,
    List.append_cancel_left_eq]
  exact WebSocket.dataPayload_eq_iff frames

theorem Envoy.arrives_iff {frames : List Frame} {messages : List Bytes}
    (hsends : Sends none frames messages) {chunks : List Bytes}
    (hchunks : chunks.flatten = encodeAll frames) {t : Filter} (hready : Ready t)
    (hclamp : WithinClamp [] chunks) :
    Arrives t chunks messages ↔ ContinuationsEmpty frames := by
  rw [Arrives, run_payload hready hsends hclamp hchunks, hsends.flatten,
    List.append_cancel_left_eq]
  exact WebSocket.dataPayload_eq_iff frames

/-- A stream of messages, however fragmented and however cut, arrives upstream with all its
bytes in both filters if every continuation frame is empty and all fits. In each filter, a
stream that fits and arrives has no other continuations. -/
theorem messages_arrive {frames : List Frame} {messages : List Bytes}
    (hsends : Sends none frames messages) (chunks : List Bytes)
    (hchunks : chunks.flatten = encodeAll frames)
    (env : Wasm.Env) {s : Wasm.WsBridgeStream} {id : UInt32} (hopen : Wasm.Open s id)
    {t : Envoy.Filter} (hready : Envoy.Ready t) :
    (ContinuationsEmpty frames ∧ StreamFits env.bits frames chunks →
      Wasm.Arrives env s chunks messages ∧ Envoy.Arrives t chunks messages) ∧
    ((∀ f ∈ frames, f.encode.length < 2 ^ env.bits) → Wasm.Arrives env s chunks messages →
      ContinuationsEmpty frames) ∧
    (Envoy.WithinClamp [] chunks → Envoy.Arrives t chunks messages →
      ContinuationsEmpty frames) := by
  refine ⟨fun ⟨hempty, hwidth, hclamp⟩ => ⟨?_, ?_⟩, fun hwidth => ?_, fun hclamp => ?_⟩
  · exact (Wasm.arrives_iff hsends hchunks hopen hwidth).mpr hempty
  · exact (Envoy.arrives_iff hsends hchunks hready hclamp).mpr hempty
  · exact (Wasm.arrives_iff hsends hchunks hopen hwidth).mp
  · exact (Envoy.arrives_iff hsends hchunks hready hclamp).mp

/-- A whole message, a Ping, and a message whose only continuation is empty. -/
theorem messages_arrive_empty :
    Wasm.Arrives ⟨32, .ascii, fun _ => none⟩
      { state := .active, grpcStreamId := some 7, grpcCluster := [], grpcService := [] }
      [[0x81, 0x01, 0x41, 0x89], [0x00, 0x02, 0x01, 0x42, 0x80, 0x00]] [[0x41], [0x42]] ∧
    Envoy.Arrives
      { config := ⟨[], []⟩, state := .active, grpcCallbacks := true, grpcStream := true }
      [[0x81, 0x01, 0x41, 0x89], [0x00, 0x02, 0x01, 0x42, 0x80, 0x00]] [[0x41], [0x42]] := by
  have hsends : Sends none
      [⟨true, 0, 1, none, .short, [0x41], by decide⟩, ⟨true, 0, 9, none, .short, [], by decide⟩,
        ⟨false, 0, 2, none, .short, [0x42], by decide⟩,
        ⟨true, 0, 0, none, .short, [], by decide⟩] [[0x41], [0x42]] :=
    .whole (.inl rfl) rfl (.control (.inl rfl) (.first (.inr rfl) rfl (.last rfl rfl .done)))
  have h := messages_arrive hsends
    [[0x81, 0x01, 0x41, 0x89], [0x00, 0x02, 0x01, 0x42, 0x80, 0x00]] (by decide)
    ⟨32, .ascii, fun _ => none⟩
    (s := { state := .active, grpcStreamId := some 7, grpcCluster := [], grpcService := [] })
    ⟨rfl, rfl, rfl, rfl⟩
    (t := { config := ⟨[], []⟩, state := .active, grpcCallbacks := true, grpcStream := true })
    ⟨rfl, rfl, rfl, rfl, rfl⟩
  exact h.1 ⟨by decide, by decide, Envoy.withinClamp_of_length (by decide)⟩

/-- `Hello` as a text frame and one continuation: only `Hel` arrives, in both
filters. -/
theorem fragmented_message_truncated :
    let frames : List Frame := [⟨false, 0, 1, none, .short, [0x48, 0x65, 0x6C], by decide⟩,
      ⟨true, 0, 0, none, .short, [0x6C, 0x6F], by decide⟩]
    let chunks : List Bytes := [[0x01, 0x03, 0x48, 0x65, 0x6C, 0x80, 0x02, 0x6C, 0x6F]]
    Sends none frames [[0x48, 0x65, 0x6C, 0x6C, 0x6F]] ∧ chunks.flatten = encodeAll frames ∧
      (Wasm.sentMessages (Wasm.deliver ⟨32, .ascii, fun _ => none⟩
        { state := .active, grpcStreamId := some 7, grpcCluster := [], grpcService := [] }
        chunks).calls).flatMap Wasm.sentPayload = [0x48, 0x65, 0x6C] ∧
      Envoy.sentPayload (Envoy.run .quiet
        { config := ⟨[], []⟩, state := .active, grpcCallbacks := true, grpcStream := true }
        (chunks.map fun c => .decodeData c false)).trace = [0x48, 0x65, 0x6C] := by
  intro frames chunks
  exact ⟨.first (.inl rfl) rfl (.last rfl rfl .done), by decide, by decide, by decide⟩

end Grpcgi
