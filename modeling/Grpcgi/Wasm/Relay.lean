import Grpcgi.Wasm.Filter

/-!
# The client-to-upstream path of the WASM filter

What `process_ws_frames` does with a stream of frames that has no Close in it,
received in the active state with the gRPC stream open: the calls of the frames
one by one, however the stream is cut.
-/

namespace Grpcgi.Wasm

open WebSocket (Frame encodeAll)
open Incremental (Decoder foldWhile)

/-- The `Frame` message that carries a data frame upstream. -/
def frameMessage (f : Frame) : Bytes := encodeFrameProto f.payload (decide f.IsBinary)

/-- The calls of one frame while the stream `id` is open. -/
def frameCalls (id : UInt32) (f : Frame) : List Call :=
  if f.IsData then [.sendGrpcStreamMessage id (frameMessage f) false]
  else if f.IsPing then [.setDownstreamData 0 0 (encodeWsFrame 0x0A f.payload)]
  else []

/-- The filter after more calls. -/
def WsBridgeStream.calling (s : WsBridgeStream) (cs : List Call) : WsBridgeStream :=
  { s with calls := s.calls ++ cs }

@[simp] theorem calling_nil (s : WsBridgeStream) : s.calling [] = s := by
  simp [WsBridgeStream.calling]

@[simp] theorem calling_calling (s : WsBridgeStream) (cs ds : List Call) :
    (s.calling cs).calling ds = s.calling (cs ++ ds) := by
  simp [WsBridgeStream.calling]

/-- The filter on an open stream, with nothing buffered. -/
structure Open (s : WsBridgeStream) (id : UInt32) : Prop where
  state : s.state = .active
  grpcStreamId : s.grpcStreamId = some id
  downstreamBuf : s.downstreamBuf = []
  trap : s.trap = none

theorem dispatchFrame_open {s : WsBridgeStream} {id : UInt32} (h : s.grpcStreamId = some id)
    {f : Frame} (hclose : ¬ f.IsClose) :
    dispatchFrame s (wsView f) = (s.calling (frameCalls id f), true) := by
  simp only [dispatchFrame, wsView, f.byte_text, f.byte_binary, f.byte_close, f.byte_ping,
    if_neg hclose, h, frameCalls, frameMessage, beq_eq_decide]
  by_cases hdata : f.IsData
  · have hopcode : f.IsText ∨ f.IsBinary := hdata
    rw [if_pos hdata, if_pos hopcode]
    rfl
  · have hopcode : ¬ (f.IsText ∨ f.IsBinary) := hdata
    rw [if_neg hdata, if_neg hopcode]
    by_cases hp : f.IsPing
    · rw [if_pos hp, if_pos hp]
      rfl
    · rw [if_neg hp, if_neg hp, calling_nil]

theorem foldWhile_dispatchFrame {s : WsBridgeStream} {id : UInt32}
    (h : s.grpcStreamId = some id) {frames : List Frame}
    (hclose : ∀ f ∈ frames, ¬ f.IsClose) :
    foldWhile dispatchFrame s (frames.map wsView) =
      (s.calling (frames.flatMap (frameCalls id)), true) := by
  induction frames generalizing s with
  | nil => simp [foldWhile]
  | cons f fs ih =>
      rw [List.map_cons, foldWhile, dispatchFrame_open h (hclose f List.mem_cons_self)]
      simp only
      rw [ih (s := s.calling (frameCalls id f)) h
        (fun g hg => hclose g (List.mem_cons_of_mem f hg)), calling_calling, List.flatMap_cons]

/-- The scan of whole frames and the beginning of another one. -/
theorem scan_frames {bits : Nat} {s : WsBridgeStream} {id : UInt32}
    (h : s.grpcStreamId = some id) {frames : List Frame} {tail : Bytes}
    (hclose : ∀ f ∈ frames, ¬ f.IsClose) (hwidth : ∀ f ∈ frames, f.encode.length < 2 ^ bits)
    (htail : (wsDecoder bits).attempt tail = .more) :
    (wsDecoder bits).scan dispatchFrame s (encodeAll frames ++ tail) =
      (s.calling (frames.flatMap (frameCalls id)), .rest tail) := by
  rw [encodeAll, Decoder.scan_flatMap_true
    (fun f hf => attemptWsFrame_encode f (hwidth f hf)) (foldWhile_dispatchFrame h hclose),
    Decoder.scan_more _ htail]

/-! ## Delivery in chunks -/

/-- The loop ends at a Close and at nothing else. -/
theorem dispatchFrame_go (s : WsBridgeStream) (frame : UInt8 × Bytes) :
    (dispatchFrame s frame).2 = (frame.1 != 0x08) := by
  obtain ⟨opcode, payload⟩ := frame
  simp only [dispatchFrame]
  split_ifs with hdata hclose
  · have hgo : opcode ≠ 0x08 := by rintro rfl; revert hdata; decide
    cases s.grpcStreamId <;> simp [hgo]
  · cases s.grpcStreamId <;> simp [hclose]
  · simp [hclose]
  · simp [hclose]

theorem scan_keeps {bits : Nat} {s t : WsBridgeStream} {bs r : Bytes} (hstate : s.state = .active)
    (hbuf : s.downstreamBuf = []) (htrap : s.trap = none)
    (h : (wsDecoder bits).scan dispatchFrame s bs = (t, .rest r)) :
    t.state = .active ∧ t.downstreamBuf = [] ∧ t.trap = none := by
  have hscan := Decoder.scan_settled (wsDecoder bits) dispatchFrame
    (P := fun u => u.state = .active ∧ u.downstreamBuf = [] ∧ u.trap = none)
    (Q := fun _ => True)
    (fun u a hu => ⟨fun _ => by
      obtain ⟨hs, hb, ht⟩ := dispatchFrame_keeps u a
      exact ⟨hs.trans hu.1, hb.trans hu.2.1, ht.trans hu.2.2⟩, fun _ => trivial⟩)
    ⟨hstate, hbuf, htrap⟩ bs
  rw [h] at hscan
  cases hscan with
  | rest hu => exact hu

theorem step_active {env : Env} {s : WsBridgeStream} (hstate : s.state = .active)
    (htrap : s.trap = none) (chunk : Bytes) :
    step env s (.downstreamData (some chunk)) =
      leave ((wsDecoder env.bits).scan dispatchFrame { s with downstreamBuf := [] }
        (s.downstreamBuf ++ chunk)) := by
  simp only [step]
  rw [if_neg (by simp [htrap])]
  simp only [onDownstreamData_active hstate]

theorem leave_state {s : WsBridgeStream} {bits : Nat} {bs : Bytes} (hstate : s.state = .active) :
    (leave ((wsDecoder bits).scan dispatchFrame s bs)).state = .active := by
  have hkeep (u : WsBridgeStream) (a : UInt8 × Bytes) (hu : u.state = .active) :
      (dispatchFrame u a).1.state = .active := (dispatchFrame_keeps u a).1.trans hu
  have hscan := Decoder.scan_settled (wsDecoder bits) dispatchFrame
    (P := fun u => u.state = .active) (Q := fun u => u.state = .active)
    (fun u a hu => ⟨fun _ => hkeep u a hu, fun _ => hkeep u a hu⟩) hstate bs
  generalize (wsDecoder bits).scan dispatchFrame s bs = result at hscan ⊢
  cases hscan with
  | rest hu => exact hu
  | stopped hu => exact hu
  | fault hu _ => exact hu

/-- An active filter stays active and always answers `Pause`. -/
theorem step_stays_active {env : Env} {s : WsBridgeStream} (hstate : s.state = .active)
    (chunk : Bytes) : (step env s (.downstreamData (some chunk))).state = .active := by
  simp only [step]
  split
  · exact hstate
  · simp only [onDownstreamData_active hstate]
    exact leave_state hstate

/-- The chunks of a stream, one callback each. -/
def deliver (env : Env) (s : WsBridgeStream) (chunks : List Bytes) : WsBridgeStream :=
  run env s (chunks.map fun c => .downstreamData (some c))

/-- Delivery from the middle of a stream: with the rest of the scan so far in its
buffer, the filter gets where the scan of the whole stream gets. -/
theorem deliver_from {env : Env} {s t u : WsBridgeStream} {chunks : List Bytes} {bs q r : Bytes}
    (hstate : s.state = .active) (hbuf : s.downstreamBuf = []) (htrap : s.trap = none)
    (hsofar : (wsDecoder env.bits).scan dispatchFrame s bs = (u, .rest q))
    (hall : (wsDecoder env.bits).scan dispatchFrame s (bs ++ chunks.flatten) = (t, .rest r)) :
    deliver env { u with downstreamBuf := q } chunks = { t with downstreamBuf := r } := by
  induction chunks generalizing bs u q with
  | nil =>
      rw [List.flatten_nil, List.append_nil, hsofar] at hall
      cases hall
      rfl
  | cons c cs ih =>
      rw [List.flatten_cons, ← List.append_assoc] at hall
      obtain ⟨u', q', hnext, -⟩ := Decoder.scan_prefix_rest hall
      obtain ⟨hactive, hempty, hlive⟩ := scan_keeps hstate hbuf htrap hsofar
      have hclear : { u with downstreamBuf := [] } = u := by
        cases u
        simp_all
      have hone : step env { u with downstreamBuf := q } (.downstreamData (some c)) =
          leave ((wsDecoder env.bits).scan dispatchFrame { u with downstreamBuf := [] }
            (q ++ c)) :=
        step_active (s := { u with downstreamBuf := q }) hactive hlive c
      have hresume := hnext
      rw [Decoder.scan_append, hsofar, Decoder.resume] at hresume
      rw [hclear, hresume] at hone
      have hcons : deliver env { u with downstreamBuf := q } (c :: cs) =
          deliver env (step env { u with downstreamBuf := q } (.downstreamData (some c))) cs :=
        rfl
      rw [hcons, hone]
      exact ih hnext hall

/-- Delivering a stream in chunks is scanning it whole, as long as no Close and
no malformed frame ends the scan. -/
theorem deliver_eq {env : Env} {s t : WsBridgeStream} {chunks : List Bytes} {r : Bytes}
    (hstate : s.state = .active) (hbuf : s.downstreamBuf = []) (htrap : s.trap = none)
    (h : (wsDecoder env.bits).scan dispatchFrame s chunks.flatten = (t, .rest r)) :
    deliver env s chunks = { t with downstreamBuf := r } := by
  have hself : { s with downstreamBuf := [] } = s := by
    cases s
    simp_all
  have hall := deliver_from hstate hbuf htrap (Decoder.scan_nil s) h
  rwa [hself] at hall

/-- The effect of a stream without Close, wherever it is cut: the calls of its
frames, each once and in order. -/
theorem deliver_frames {env : Env} {s : WsBridgeStream} {id : UInt32} (h : Open s id)
    {frames : List Frame} {tail : Bytes} {chunks : List Bytes}
    (hclose : ∀ f ∈ frames, ¬ f.IsClose) (hwidth : ∀ f ∈ frames, f.encode.length < 2 ^ env.bits)
    (htail : (wsDecoder env.bits).attempt tail = .more)
    (hchunks : chunks.flatten = encodeAll frames ++ tail) :
    deliver env s chunks =
      { s.calling (frames.flatMap (frameCalls id)) with downstreamBuf := tail } := by
  have hscan := scan_frames h.grpcStreamId hclose hwidth htail
  rw [← hchunks] at hscan
  exact deliver_eq h.state h.downstreamBuf h.trap hscan

/-- The messages passed to `send_grpc_stream_message`. -/
def sentMessages (calls : List Call) : List Bytes :=
  calls.filterMap fun
    | .sendGrpcStreamMessage _ message _ => some message
    | _ => none

theorem sentMessages_append (xs ys : List Call) :
    sentMessages (xs ++ ys) = sentMessages xs ++ sentMessages ys := List.filterMap_append

theorem sentMessages_frames (id : UInt32) (frames : List Frame) :
    sentMessages (frames.flatMap (frameCalls id)) =
      (frames.filter fun f => decide f.IsData).map frameMessage := by
  induction frames with
  | nil => rfl
  | cons f fs ih =>
      rw [List.flatMap_cons, sentMessages_append, ih, frameCalls]
      by_cases hdata : f.IsData
      · rw [if_pos hdata, List.filter_cons_of_pos (by simpa using hdata)]
        rfl
      · rw [if_neg hdata, List.filter_cons_of_neg (by simpa using hdata)]
        split <;> rfl

end Grpcgi.Wasm
