import Grpcgi.CodecAgreement
import Grpcgi.Envoy.Phase
import Grpcgi.Wasm.Injection
import Grpcgi.Wasm.Segmentation

/-!
# Where the two WebSocket filters agree

The native filter and the WASM filter bridge the same connection in two languages. Once
both have their gRPC stream, and each callback brings either of them new bytes only, the
same callbacks make them ask for the same, one by one and in the same order: the messages
and the half close upstream, and every frame for the client, those for the server's
messages between the Pongs. The exception is a Ping behind a Close. The native filter reads
nothing behind a Close, the WASM filter reads on with the next callback.

Where a frame ends up is another matter: the native filter appends it to what is on its way
to the client, the WASM filter inserts it in front.
-/

namespace Grpcgi

open WebSocket (Frame encodeAll)
open Incremental (Decoder)
open Envoy (Effect Filter)
open Wasm (Call WsBridgeStream NoPingAfterClose)

/-- A callback that both filters have: new bytes from the client, or a message from the
server, as the native filter gets it and as it is encoded. -/
inductive Callback where
  | data (chunk : Bytes)
  | message (m : Proto.Frame) (encoded : Bytes)
  deriving DecidableEq, Repr

namespace Callback

def toEnvoy : Callback → Envoy.Event
  | .data chunk => .decodeData chunk false
  | .message m _ => .onReceiveMessage m

/-- The host keeps no bytes of an earlier callback. -/
def toWasm (id : UInt32) : Callback → Wasm.Event
  | .data chunk => .downstreamData (some chunk)
  | .message _ encoded => .grpcStreamMessage id (some encoded)

/-- The bytes from the client. -/
def bytes : Callback → Bytes
  | .data chunk => chunk
  | .message _ _ => []

/-- The encoded message is the message. -/
def Encodes (bits : Nat) : Callback → Prop
  | .data _ => True
  | .message m encoded => Wasm.decodeFrameProto bits encoded =
      .ok (some { payload := m.payload, binary := m.binary })

instance (bits : Nat) (c : Callback) : Decidable (c.Encodes bits) :=
  match c with
  | .data _ => inferInstanceAs (Decidable True)
  | .message _ _ => inferInstanceAs (Decidable (_ = _))

end Callback

/-- The client's bytes of some callbacks. -/
def clientBytes (callbacks : List Callback) : Bytes := callbacks.flatMap Callback.bytes

/-- What a filter asks of its host, by whichever call. -/
inductive Act where
  | send (message : Proto.Frame) (endStream : Bool)
  | halfClose
  /-- a frame for the client, wherever the host puts it -/
  | write (frame : Bytes)
  deriving DecidableEq, Repr

namespace Act

/-- The native filter's calls. Resetting the client's stream is a matter of its own. -/
def ofEffect : Effect → Option Act
  | .sendMessage message endStream => some (.send message endStream)
  | .closeStream => some .halfClose
  | .addEncodedData data _ => some (.write data)
  | _ => none

/-- The WASM filter's call. -/
def call (id : UInt32) : Act → Call
  | .send message endStream =>
    .sendGrpcStreamMessage id (Wasm.encodeFrameProto message.payload message.binary) endStream
  | .halfClose => .closeGrpcStream id
  | .write frame => .setDownstreamData 0 0 frame

def frame? : Act → Option Bytes
  | .write frame => some frame
  | _ => none

end Act

/-- The bytes that these calls append for the client. -/
def appended (effects : List Effect) : Bytes :=
  effects.flatMap fun
    | .addEncodedData data _ => data
    | _ => []

/-- The bytes that these calls leave in a buffer that was empty and is not drained. -/
def inserted (calls : List Call) : Bytes :=
  (calls.foldl Wasm.HostBuffer.call { bytes := [] }).bytes.map Prod.fst

/-- The calls of both filters for the same acts. The frames go to opposite ends. -/
structure SameActs (id : UInt32) (effects : List Effect) (calls : List Call)
    (acts : List Act) : Prop where
  native : effects.filterMap Act.ofEffect = acts
  wasm : calls = acts.map (Act.call id)
  appended_eq : appended effects = (acts.filterMap Act.frame?).flatten
  inserted_eq : inserted calls = (acts.filterMap Act.frame?).reverse.flatten

/-- Since `s` and `t` the filters have asked for the same, and neither has failed. -/
structure Mirrored (id : UInt32) (s : Filter) (t : WsBridgeStream) (s' : Filter)
    (t' : WsBridgeStream) : Prop where
  acts : ∃ effects calls acts, s'.trace = s.trace ++ effects ∧ t'.calls = t.calls ++ calls ∧
    SameActs id effects calls acts
  fault : s'.fault = none
  trap : t'.trap = none

/-- The native filter on an open stream, with nothing buffered. -/
structure Envoy.Open (s : Filter) : Prop where
  state : s.state = .active
  grpcStream : s.grpcStream = true
  grpcCallbacks : s.grpcCallbacks = true
  frameRemainder : s.frameRemainder = []
  fault : s.fault = none

/-- The filters do the same in these callbacks, and also when the server then closes the
stream. -/
def Agree (env : Wasm.Env) (id : UInt32) (s : Filter) (t : WsBridgeStream)
    (callbacks : List Callback) : Prop :=
  let s' := Envoy.run .quiet s (callbacks.map Callback.toEnvoy)
  let t' := Wasm.run env t (callbacks.map (Callback.toWasm id))
  Mirrored id s t s' t' ∧ ∀ status, Mirrored id s t (Envoy.step .quiet s' .onRemoteClose)
    (Wasm.step env t' (.grpcStreamClose id status))

/-! ## Acts -/

theorem appended_acts (effects : List Effect) :
    appended effects = ((effects.filterMap Act.ofEffect).filterMap Act.frame?).flatten := by
  induction effects with
  | nil => rfl
  | cons e effects ih =>
      have hcons : appended (e :: effects) = appended [e] ++ appended effects := by
        simp [appended]
      rw [hcons, ih]
      cases e <;> simp [appended, Act.ofEffect, Act.frame?, List.filterMap_cons]

/-- Every frame goes in front of what is there. -/
theorem inserted_foldl (id : UInt32) (acts : List Act) (b : Wasm.HostBuffer) :
    ((acts.map (Act.call id)).foldl Wasm.HostBuffer.call b).bytes.map Prod.fst =
      (acts.filterMap Act.frame?).reverse.flatten ++ b.bytes.map Prod.fst := by
  induction acts generalizing b with
  | nil => rfl
  | cons a acts ih =>
      rw [List.map_cons, List.foldl_cons, ih]
      cases a with
      | send message endStream => rfl
      | halfClose => rfl
      | write frame =>
          simp [Wasm.HostBuffer.call, Wasm.HostBuffer.set, Act.call, Act.frame?, Function.comp_def]

theorem inserted_acts (id : UInt32) (acts : List Act) :
    inserted (acts.map (Act.call id)) = (acts.filterMap Act.frame?).reverse.flatten := by
  rw [inserted, inserted_foldl]
  exact List.append_nil _

theorem sameActs (id : UInt32) (effects : List Effect) :
    SameActs id effects ((effects.filterMap Act.ofEffect).map (Act.call id))
      (effects.filterMap Act.ofEffect) :=
  ⟨rfl, rfl, appended_acts effects, inserted_acts id _⟩

/-! ## One frame -/

/-- What the native filter does with a frame other than Close. -/
def frameTrace (f : Frame) : List Effect :=
  if f.IsData then [.sendMessage { payload := f.payload, binary := decide f.IsBinary } false]
  else if f.IsPing then [.addEncodedData (Envoy.encodeFrame Envoy.kOpcodePong f.payload) false]
  else []

theorem frameTrace_acts (id : UInt32) (f : Frame) :
    ((frameTrace f).filterMap Act.ofEffect).map (Act.call id) = Wasm.frameCalls id f := by
  simp only [frameTrace, Wasm.frameCalls]
  split
  · rfl
  · split
    · simp only [List.filterMap_cons, List.filterMap_nil, Act.ofEffect, List.map_singleton,
        Act.call, ← encodeWsFrame_eq_encodeFrame]
      rfl
    · rfl

/-- A frame other than Close on an open stream. -/
theorem dispatch_open {s : Filter} (hstate : s.state = .active) (hstream : s.grpcStream = true)
    (hfault : s.fault = none) {f : Frame} (hclose : ¬ f.IsClose) :
    Envoy.dispatch .quiet s (Envoy.frameView f) =
      ({ s with trace := s.trace ++ frameTrace f }, true) := by
  have htext : UInt8.ofNat f.opcode.val = Envoy.kOpcodeText ↔ f.IsText := f.byte_text
  have hbinary : UInt8.ofNat f.opcode.val = Envoy.kOpcodeBinary ↔ f.IsBinary := f.byte_binary
  have hclose' : UInt8.ofNat f.opcode.val = Envoy.kOpcodeClose ↔ f.IsClose := f.byte_close
  have hping : UInt8.ofNat f.opcode.val = Envoy.kOpcodePing ↔ f.IsPing := f.byte_ping
  simp only [Envoy.dispatch, Envoy.frameView, htext, hbinary, hclose', hping, frameTrace]
  by_cases hdata : f.IsData
  · have hopcode : f.IsText ∨ f.IsBinary := hdata
    rw [if_pos hdata, if_pos hopcode]
    simp [Envoy.forwardDataFrame, hstate, hstream, hfault, Filter.emit, beq_eq_decide, hbinary]
  · have hopcode : ¬ (f.IsText ∨ f.IsBinary) := hdata
    rw [if_neg hdata, if_neg hopcode]
    by_cases hp : f.IsPing
    · simp [hp, hstate, Filter.emit]
    · have hself : s = { s with state := .active } := by rw [← hstate]
      simpa [hp, hclose, hstate] using hself

/-- A Close on an open stream. -/
theorem dispatch_close {s : Filter} (hstate : s.state = .active) (hstream : s.grpcStream = true)
    {f : Frame} (hclose : f.IsClose) :
    Envoy.dispatch .quiet s (Envoy.frameView f) =
      ({ s with state := .closing, trace := s.trace ++ [.closeStream] }, false) := by
  have htext : UInt8.ofNat f.opcode.val = Envoy.kOpcodeText ↔ f.IsText := f.byte_text
  have hbinary : UInt8.ofNat f.opcode.val = Envoy.kOpcodeBinary ↔ f.IsBinary := f.byte_binary
  have hclose' : UInt8.ofNat f.opcode.val = Envoy.kOpcodeClose ↔ f.IsClose := f.byte_close
  have hping : UInt8.ofNat f.opcode.val = Envoy.kOpcodePing ↔ f.IsPing := f.byte_ping
  have hpong : UInt8.ofNat f.opcode.val ≠ Envoy.kOpcodePong := by
    rw [hclose'.mpr hclose]
    decide
  have hopcode : ¬ (f.IsText ∨ f.IsBinary) := Frame.not_data_of_close hclose
  have hnping : ¬ f.IsPing := Frame.not_ping_of_close hclose
  simp only [Envoy.dispatch, Envoy.frameView, htext, hbinary, hclose', hping, if_neg hopcode,
    if_neg hnping, if_neg hpong, if_pos hclose]
  simp [Envoy.closeGrpcStream, hstate, hstream, Filter.emit]

/-- One callback with more bytes. -/
theorem step_data {s : Filter} (hstate : s.state = .active) (hfault : s.fault = none)
    {chunk : Bytes} (hclamp : (s.frameRemainder ++ chunk).length ≤ Envoy.uint32Max) :
    Envoy.step .quiet s (.decodeData chunk false) =
      (Envoy.leave (Envoy.frameDecoder.scan (Envoy.dispatch .quiet)
        { s with frameRemainder := [] } (s.frameRemainder ++ chunk))).1 := by
  have hend (result : Filter × Bool) : Envoy.closeAtEnd .quiet false result = result.1 := by
    obtain ⟨u, _ | _⟩ := result <;> rfl
  have hprocess := Envoy.processWebSocketData_eq .quiet chunk false hstate
  rw [hend, List.take_of_length_le hclamp] at hprocess
  rw [← hprocess, Envoy.step, if_neg (by simp [hfault])]
  simp only [Envoy.decodeData, hstate]

namespace Mirrored

variable {id : UInt32} {s : Filter} {t : WsBridgeStream} {s' : Filter} {t' : WsBridgeStream}

theorem refl (hfault : s.fault = none) (htrap : t.trap = none) : Mirrored id s t s t :=
  ⟨⟨[], [], [], by simp, by simp, sameActs id []⟩, hfault, htrap⟩

/-- Both go on with the same acts. -/
theorem add (h : Mirrored id s t s' t') {s'' : Filter} {t'' : WsBridgeStream}
    (effects : List Effect) (htrace : s''.trace = s'.trace ++ effects)
    (hcalls : t''.calls = t'.calls ++ (effects.filterMap Act.ofEffect).map (Act.call id))
    (hfault : s''.fault = none) (htrap : t''.trap = none) : Mirrored id s t s'' t'' := by
  obtain ⟨before, calls, acts, hbefore, hcalls', hsame⟩ := h.acts
  refine ⟨⟨before ++ effects, _, _, ?_, ?_, sameActs id _⟩, hfault, htrap⟩
  · rw [htrace, hbefore, List.append_assoc]
  · rw [hcalls, hcalls', hsame.wasm, ← hsame.native, List.filterMap_append, List.map_append,
      List.append_assoc]

/-- Neither has called anything more. -/
theorem idle (h : Mirrored id s t s' t') {s'' : Filter} {t'' : WsBridgeStream}
    (htrace : s''.trace = s'.trace) (hcalls : t''.calls = t'.calls) (hfault : s''.fault = none)
    (htrap : t''.trap = none) : Mirrored id s t s'' t'' :=
  h.add [] (by rw [htrace, List.append_nil]) (by rw [hcalls]; simp) hfault htrap

end Mirrored

/-! ## The simulation -/

/-- Both have handled these frames, among them no Close. -/
structure Running (id : UInt32) (s : Filter) (t : WsBridgeStream) (done : List Frame)
    (s' : Filter) (t' : WsBridgeStream) : Prop where
  mirrored : Mirrored id s t s' t'
  state : s'.state = .active
  grpcStream : s'.grpcStream = true
  grpcCallbacks : s'.grpcCallbacks = true
  active : t'.state = .active
  grpcStreamId : t'.grpcStreamId = some id
  noClose : ∀ f ∈ done, ¬ f.IsClose

/-- Both have closed the gRPC stream on a Close among these frames. -/
structure Shut (id : UInt32) (s : Filter) (t : WsBridgeStream) (done : List Frame)
    (s' : Filter) (t' : WsBridgeStream) : Prop where
  mirrored : Mirrored id s t s' t'
  state : s'.state = .closing
  grpcCallbacks : s'.grpcCallbacks = true
  active : t'.state = .active
  grpcStreamId : t'.grpcStreamId = none
  close : ∃ f ∈ done, f.IsClose

section Simulation

variable {env : Wasm.Env} {id : UInt32} {s : Filter} {t : WsBridgeStream}

/-- One frame in both filters. -/
theorem Running.dispatch {done : List Frame} {s' : Filter} {t' : WsBridgeStream}
    (h : Running id s t done s' t') (f : Frame) :
    ∃ s'' t'' go, Envoy.dispatch .quiet s' (Envoy.frameView f) = (s'', go) ∧
      Wasm.dispatchFrame t' (Wasm.wsView f) = (t'', go) ∧
      (go = true → Running id s t (done ++ [f]) s'' t'') ∧
      (go = false → Shut id s t (done ++ [f]) s'' t'') := by
  by_cases hclose : f.IsClose
  · refine ⟨_, _, false, dispatch_close h.state h.grpcStream hclose,
      Wasm.dispatchFrame_close h.grpcStreamId hclose, by simp, fun _ => ?_⟩
    exact {
      mirrored := h.mirrored.add [.closeStream] rfl rfl h.mirrored.fault h.mirrored.trap
      state := rfl
      grpcCallbacks := h.grpcCallbacks
      active := h.active
      grpcStreamId := rfl
      close := ⟨f, by simp, hclose⟩ }
  · refine ⟨_, _, true, dispatch_open h.state h.grpcStream h.mirrored.fault hclose,
      Wasm.dispatchFrame_open h.grpcStreamId hclose, fun _ => ?_, by simp⟩
    exact {
      mirrored := h.mirrored.add (frameTrace f) rfl
        (by rw [frameTrace_acts]; rfl) h.mirrored.fault h.mirrored.trap
      state := h.state
      grpcStream := h.grpcStream
      grpcCallbacks := h.grpcCallbacks
      active := h.active
      grpcStreamId := h.grpcStreamId
      noClose := by
        intro g hg
        obtain hg | hg := List.mem_append.mp hg
        · exact h.noClose g hg
        · exact List.mem_singleton.mp hg ▸ hclose }

/-- The bytes that are carried over play no part. -/
theorem Running.carry {done : List Frame} {s' : Filter} {t' : WsBridgeStream}
    (h : Running id s t done s' t') (r r' : Bytes) :
    Running id s t done { s' with frameRemainder := r } { t' with downstreamBuf := r' } :=
  ⟨h.mirrored.idle rfl rfl h.mirrored.fault h.mirrored.trap, h.state, h.grpcStream,
    h.grpcCallbacks, h.active, h.grpcStreamId, h.noClose⟩

theorem Shut.carry {done : List Frame} {s' : Filter} {t' : WsBridgeStream}
    (h : Shut id s t done s' t') (r : Bytes) :
    Shut id s t done s' { t' with downstreamBuf := r } :=
  ⟨h.mirrored.idle rfl rfl h.mirrored.fault h.mirrored.trap, h.state, h.grpcCallbacks, h.active,
    h.grpcStreamId, h.close⟩

/-- With the stream closed, frames without a Ping have no effect. -/
theorem handleAll_shut (h : t.grpcStreamId = none) {frames : List Frame}
    (hping : ∀ f ∈ frames, ¬ f.IsPing) :
    Decoder.handleAll Wasm.dispatchFrame Wasm.wsView t frames = t := by
  induction frames with
  | nil => rfl
  | cons f fs ih =>
      have hone : (Wasm.dispatchFrame t (Wasm.wsView f)).1 = t := by
        rw [Wasm.dispatchFrame_closed h, Wasm.closedCalls, if_neg (hping f List.mem_cons_self),
          Wasm.calling_nil]
      change Decoder.handleAll Wasm.dispatchFrame Wasm.wsView
        (Wasm.dispatchFrame t (Wasm.wsView f)).1 fs = t
      rw [hone]
      exact ih fun g hg => hping g (List.mem_cons_of_mem f hg)

/-- Where both filters stand in a stream of frames while `more` of it is yet to arrive: they
buffer the same bytes, or both have closed the gRPC stream. -/
inductive Abreast (id : UInt32) (s : Filter) (t : WsBridgeStream) (frames : List Frame)
    (more : Bytes) (s' : Filter) (t' : WsBridgeStream) : Prop where
  | running (done left : List Frame) (split : frames = done ++ left)
      (bytes : t'.downstreamBuf ++ more = encodeAll left) (all : more = [] → left = [])
      (same : s'.frameRemainder = t'.downstreamBuf) (h : Running id s t done s' t')
  | shut (done left : List Frame) (split : frames = done ++ left)
      (bytes : t'.downstreamBuf ++ more = encodeAll left) (h : Shut id s t done s' t')

namespace Abreast

variable {frames : List Frame} {more : Bytes} {s' : Filter} {t' : WsBridgeStream}

theorem mirrored (h : Abreast id s t frames more s' t') : Mirrored id s t s' t' := by
  cases h with
  | running _ _ _ _ _ _ h => exact h.mirrored
  | shut _ _ _ _ h => exact h.mirrored

theorem start (hs : Envoy.Open s) (ht : Wasm.Open t id) :
    Abreast id s t frames (encodeAll frames) s t := by
  refine .running [] frames rfl (by rw [ht.downstreamBuf, List.nil_append]) ?_
    (hs.frameRemainder.trans ht.downstreamBuf.symm) {
      mirrored := .refl hs.fault ht.trap
      state := hs.state
      grpcStream := hs.grpcStream
      grpcCallbacks := hs.grpcCallbacks
      active := ht.state
      grpcStreamId := ht.grpcStreamId
      noClose := by simp }
  intro hnil
  cases frames with
  | nil => rfl
  | cons f fs =>
      rw [WebSocket.encodeAll_cons] at hnil
      exact absurd (List.append_eq_nil_iff.mp hnil).1 (List.cons_ne_nil _ _)

/-- More bytes from the client while both filters run. -/
theorem data_running {done left : List Frame}
    (hwidth : ∀ f ∈ left, f.encode.length < 2 ^ env.bits)
    (htotal : (encodeAll left).length ≤ Envoy.uint32Max) (split : frames = done ++ left)
    {chunk : Bytes} (bytes : t'.downstreamBuf ++ (chunk ++ more) = encodeAll left)
    (same : s'.frameRemainder = t'.downstreamBuf) (h : Running id s t done s' t') :
    Abreast id s t frames more (Envoy.step .quiet s' (.decodeData chunk false))
      (Wasm.step env t' (.downstreamData (some chunk))) := by
  rw [← List.append_assoc] at bytes
  have hclamp : (s'.frameRemainder ++ chunk).length ≤ Envoy.uint32Max := by
    rw [← bytes, List.length_append] at htotal
    rw [same]
    omega
  have hread : ∀ f ∈ left, (Wasm.wsDecoder env.bits).Reads Frame.encode Wasm.wsView f :=
    fun f hf => Wasm.attemptWsFrame_encode f (hwidth f hf)
  have hstart : Running id s t (done ++ []) { s' with frameRemainder := [] }
      { t' with downstreamBuf := [] } := by
    rw [List.append_nil]
    exact h.carry [] []
  have hpaired := Decoder.scan_paired (Envoy.dispatch .quiet) Wasm.dispatchFrame
    (R := fun handled => Running id s t (done ++ handled))
    (S := fun handled => Shut id s t (done ++ handled))
    (fun f _ => Envoy.attemptFrame_encode f) hread bytes
    (fun handled f _ u v huv => by
      rw [← List.append_assoc]
      exact huv.dispatch f) hstart
  rw [step_data h.state h.mirrored.fault hclamp, same, Wasm.step_active h.active h.mirrored.trap]
  generalize Envoy.frameDecoder.scan (Envoy.dispatch .quiet) _ _ = result at hpaired ⊢
  generalize (Wasm.wsDecoder env.bits).scan Wasm.dispatchFrame _ _ = result' at hpaired ⊢
  cases hpaired with
  | rest handled left' r split' bytes' all h' =>
      have hsplit : frames = (done ++ handled) ++ left' := by
        rw [split, split', List.append_assoc]
      exact .running (done ++ handled) left' hsplit bytes' all rfl (h'.carry r r)
  | stopped handled left' r split' bytes' h' =>
      have hsplit : frames = (done ++ handled) ++ left' := by
        rw [split, split', List.append_assoc]
      exact .shut (done ++ handled) left' hsplit bytes' (h'.carry r)

/-- More bytes behind a Close: the WASM filter reads them to no effect. -/
theorem data_shut {done left : List Frame} (hwidth : ∀ f ∈ left, f.encode.length < 2 ^ env.bits)
    (hping : ∀ f ∈ left, ¬ f.IsPing) (split : frames = done ++ left) {chunk : Bytes}
    (bytes : t'.downstreamBuf ++ (chunk ++ more) = encodeAll left) (h : Shut id s t done s' t') :
    Abreast id s t frames more (Envoy.step .quiet s' (.decodeData chunk false))
      (Wasm.step env t' (.downstreamData (some chunk))) := by
  rw [← List.append_assoc, ← List.append_nil (encodeAll left)] at bytes
  have hread : ∀ f ∈ left, (Wasm.wsDecoder env.bits).Reads Frame.encode Wasm.wsView f :=
    fun f hf => Wasm.attemptWsFrame_encode f (hwidth f hf)
  have hnil : ∀ cs, cs <+: [] → (Wasm.wsDecoder env.bits).attempt cs = .more := by
    intro cs hcs
    rw [List.prefix_nil.mp hcs]
    exact (Wasm.wsDecoder env.bits).attempt_nil
  have hprogress := Decoder.scan_progress Wasm.dispatchFrame hread hnil bytes
    { t' with downstreamBuf := [] }
  have hkept (handled : List Frame) (hsub : handled ⊆ left) :
      Decoder.handleAll Wasm.dispatchFrame Wasm.wsView { t' with downstreamBuf := [] } handled =
        { t' with downstreamBuf := [] } :=
    handleAll_shut (t := { t' with downstreamBuf := [] }) h.grpcStreamId
      fun f hf => hping f (hsub hf)
  -- whether the scan stopped or not, the filter has only moved on
  have hnext (handled left' : List Frame) (r : Bytes) (split' : left = handled ++ left')
      (bytes' : r ++ more = left'.flatMap Frame.encode ++ []) :
      Abreast id s t frames more s' { t' with downstreamBuf := r } := by
    obtain ⟨c, hc, hclose⟩ := h.close
    refine .shut (done ++ handled) left' ?_ ?_
      { h.carry r with close := ⟨c, List.mem_append_left handled hc, hclose⟩ }
    · rw [split, split', List.append_assoc]
    · rw [List.append_nil] at bytes'
      exact bytes'
  rw [Envoy.Phase.deaf h.mirrored.fault (.inl h.state) (.inl ⟨_, _, rfl⟩),
    Wasm.step_active h.active h.mirrored.trap]
  generalize (Wasm.wsDecoder env.bits).scan Wasm.dispatchFrame _ _ = result at hprogress ⊢
  cases hprogress with
  | rest handled left' r split' bytes' _ =>
      rw [hkept handled (split' ▸ List.subset_append_left handled left')]
      exact hnext handled left' r split' bytes'
  | stopped handled g left' r split' bytes' _ =>
      rw [List.append_cons] at split'
      rw [hkept (handled ++ [g]) (split' ▸ List.subset_append_left (handled ++ [g]) left')]
      exact hnext (handled ++ [g]) left' r split' bytes'

theorem data (hwidth : ∀ f ∈ frames, f.encode.length < 2 ^ env.bits)
    (htotal : (encodeAll frames).length ≤ Envoy.uint32Max) (hnoping : NoPingAfterClose frames)
    {chunk : Bytes} (h : Abreast id s t frames (chunk ++ more) s' t') :
    Abreast id s t frames more (Envoy.step .quiet s' (.decodeData chunk false))
      (Wasm.step env t' (.downstreamData (some chunk))) := by
  cases h with
  | running done left split bytes _ same h =>
      refine data_running (fun f hf => ?_) ?_ split bytes same h
      · exact hwidth f (split ▸ List.mem_append_right done hf)
      · rw [split, WebSocket.encodeAll_append, List.length_append] at htotal
        omega
  | shut done left split bytes h =>
      obtain ⟨c, hc, hclose⟩ := h.close
      refine data_shut (fun f hf => ?_) (fun f hf => ?_) split bytes h
      · exact hwidth f (split ▸ List.mem_append_right done hf)
      · rw [split] at hnoping
        exact (List.pairwise_append.mp hnoping).2.2 c hc f hf hclose

/-- The native filter hears the server until it has closed. -/
theorem toEnvoy_message (hfault : s.fault = none) (hcallbacks : s.grpcCallbacks = true)
    (hopen : s.state = .active ∨ s.state = .closing) (m : Proto.Frame) :
    Envoy.step .quiet s (.onReceiveMessage m) = s.emit (.addEncodedData (Envoy.encodeFrame
      (if m.binary then Envoy.kOpcodeBinary else Envoy.kOpcodeText) m.payload) false) := by
  rw [Envoy.step, if_neg (by simp [hfault])]
  obtain hs | hs := hopen <;> simp [hcallbacks, Envoy.onReceiveMessage, hs]

/-- A message from the server. -/
theorem message (h : Abreast id s t frames more s' t') {m : Proto.Frame} {encoded : Bytes}
    (hencodes : (Callback.message m encoded).Encodes env.bits) :
    Abreast id s t frames more (Envoy.step .quiet s' (.onReceiveMessage m))
      (Wasm.step env t' (.grpcStreamMessage id (some encoded))) := by
  have hwasm (htrap : t'.trap = none) : Wasm.step env t' (.grpcStreamMessage id (some encoded)) =
      t'.emit (.setDownstreamData 0 0
        (Wasm.encodeWsFrame (if m.binary then 0x02 else 0x01) m.payload)) := by
    rw [Callback.Encodes] at hencodes
    rw [Wasm.step, if_neg (by simp [htrap])]
    simp only [Wasm.onGrpcStreamMessage, hencodes]
  have hcalls : ([Effect.addEncodedData (Envoy.encodeFrame (if m.binary then Envoy.kOpcodeBinary
        else Envoy.kOpcodeText) m.payload) false].filterMap Act.ofEffect).map (Act.call id) =
      [Call.setDownstreamData 0 0
        (Wasm.encodeWsFrame (if m.binary then 0x02 else 0x01) m.payload)] := by
    simp only [List.filterMap_cons, List.filterMap_nil, Act.ofEffect, List.map_singleton, Act.call,
      ← encodeWsFrame_eq_encodeFrame]
    rfl
  cases h with
  | running done left split bytes all same h =>
      rw [hwasm h.mirrored.trap, toEnvoy_message h.mirrored.fault h.grpcCallbacks (.inl h.state)]
      exact .running done left split bytes all same {
        mirrored := h.mirrored.add _ rfl (by rw [hcalls]; rfl) h.mirrored.fault h.mirrored.trap
        state := h.state
        grpcStream := h.grpcStream
        grpcCallbacks := h.grpcCallbacks
        active := h.active
        grpcStreamId := h.grpcStreamId
        noClose := h.noClose }
  | shut done left split bytes h =>
      rw [hwasm h.mirrored.trap, toEnvoy_message h.mirrored.fault h.grpcCallbacks (.inr h.state)]
      exact .shut done left split bytes {
        mirrored := h.mirrored.add _ rfl (by rw [hcalls]; rfl) h.mirrored.fault h.mirrored.trap
        state := h.state
        grpcCallbacks := h.grpcCallbacks
        active := h.active
        grpcStreamId := h.grpcStreamId
        close := h.close }

/-- The server closes the stream. -/
theorem remoteClose (h : Abreast id s t frames more s' t') (status : UInt32) :
    Mirrored id s t (Envoy.step .quiet s' .onRemoteClose)
      (Wasm.step env t' (.grpcStreamClose id status)) := by
  obtain ⟨hopen, hcallbacks⟩ : s'.state ≠ .closed ∧ s'.grpcCallbacks = true := by
    cases h with
    | running _ _ _ _ _ _ h => exact ⟨by simp [h.state], h.grpcCallbacks⟩
    | shut _ _ _ _ h => exact ⟨by simp [h.state], h.grpcCallbacks⟩
  have hfault := h.mirrored.fault
  have htrap := h.mirrored.trap
  have henvoy : Envoy.step .quiet s' .onRemoteClose = Envoy.onRemoteClose s' := by
    simp [Envoy.step, hfault, hcallbacks]
  have hwasm : Wasm.step env t' (.grpcStreamClose id status) = Wasm.onGrpcStreamClose t' := by
    simp [Wasm.step, htrap]
  rw [henvoy, Envoy.onRemoteClose_open hopen, hwasm]
  exact h.mirrored.add
    [.addEncodedData Envoy.buildCloseFrame true, .resetDownstream] (by simp) rfl hfault htrap

/-- A run of both filters. -/
theorem run (hwidth : ∀ f ∈ frames, f.encode.length < 2 ^ env.bits)
    (htotal : (encodeAll frames).length ≤ Envoy.uint32Max) (hnoping : NoPingAfterClose frames)
    {callbacks : List Callback} (hencodes : ∀ c ∈ callbacks, c.Encodes env.bits)
    (h : Abreast id s t frames (clientBytes callbacks ++ more) s' t') :
    Abreast id s t frames more (Envoy.run .quiet s' (callbacks.map Callback.toEnvoy))
      (Wasm.run env t' (callbacks.map (Callback.toWasm id))) := by
  induction callbacks generalizing s' t' with
  | nil => exact h
  | cons c callbacks ih =>
      have hrest : ∀ c ∈ callbacks, c.Encodes env.bits := fun c' hc' =>
        hencodes c' (List.mem_cons_of_mem c hc')
      rw [clientBytes, List.flatMap_cons, List.append_assoc] at h
      cases c with
      | data chunk => exact ih hrest (h.data hwidth htotal hnoping)
      | message m encoded => exact ih hrest (h.message (hencodes _ List.mem_cons_self))

end Abreast

/-! ## Agreement -/

theorem clientBytes_data (chunks : List Bytes) :
    clientBytes (chunks.map .data) = chunks.flatten := by
  rw [clientBytes, List.flatMap_map, List.flatMap_def]
  exact congrArg List.flatten (List.map_id chunks)

theorem encodes_data {bits : Nat} (chunks : List Bytes) :
    ∀ c ∈ chunks.map Callback.data, c.Encodes bits := by
  intro c hc
  obtain ⟨chunk, -, rfl⟩ := List.mem_map.mp hc
  trivial

theorem run_data (chunks : List Bytes) :
    Wasm.run env t ((chunks.map Callback.data).map (Callback.toWasm id)) =
      Wasm.deliver env t chunks := by
  rw [List.map_map]
  rfl

/-- A closing filter ignores the client. -/
theorem run_closing (hfault : s.fault = none) (hstate : s.state = .closing)
    (chunks : List Bytes) :
    Envoy.run .quiet s ((chunks.map Callback.data).map Callback.toEnvoy) = s := by
  induction chunks with
  | nil => rfl
  | cons chunk chunks ih =>
      change Envoy.run .quiet (Envoy.step .quiet s (.decodeData chunk false)) _ = s
      rw [Envoy.Phase.deaf hfault (.inl hstate) (.inl ⟨_, _, rfl⟩)]
      exact ih

/-- The frames one by one, and an empty chunk. -/
def eachFrame (frames : List Frame) : List Bytes := frames.map Frame.encode ++ [[]]

theorem flatten_eachFrame (frames : List Frame) :
    (eachFrame frames).flatten = encodeAll frames := by
  simp [eachFrame, encodeAll, List.flatMap_def]

theorem eachFrame_append (fs gs : List Frame) :
    eachFrame (fs ++ gs) = fs.map Frame.encode ++ eachFrame gs := by
  simp [eachFrame]

/-- The WASM filter handles every frame of them. -/
theorem calls_eachFrame (ht : Wasm.Open t id) {frames : List Frame}
    (hwidth : ∀ f ∈ frames, f.encode.length < 2 ^ env.bits) :
    (Wasm.deliver env t (eachFrame frames)).calls =
      t.calls ++ Wasm.streamCalls (some id) frames := by
  rw [← ht.grpcStreamId]
  exact Wasm.deliver_each ⟨ht.state, ht.downstreamBuf, ht.trap⟩ hwidth
    (Wasm.wsDecoder env.bits).attempt_nil

/-- When all of a stream with a Close has arrived, the native filter is closing. -/
theorem Abreast.closing {frames : List Frame} {s' : Filter} {t' : WsBridgeStream}
    (h : Abreast id s t frames [] s' t') (hclose : ∃ f ∈ frames, f.IsClose) :
    s'.state = .closing := by
  cases h with
  | running done left split _ all _ h =>
      rw [all rfl, List.append_nil] at split
      obtain ⟨f, hf, hclose⟩ := hclose
      exact absurd hclose (h.noClose f (split ▸ hf))
  | shut _ _ _ _ h => exact h.state

/-- The native filter handles none behind the first Close. -/
theorem run_eachFrame (hs : Envoy.Open s) (ht : Wasm.Open t id) {before after : List Frame}
    {c : Frame} (hbefore : ∀ f ∈ before, ¬ f.IsClose) (hclose : c.IsClose)
    (hwidth : ∀ f ∈ before ++ [c] ++ after, f.encode.length < 2 ^ env.bits)
    (htotal : (encodeAll (before ++ [c] ++ after)).length ≤ Envoy.uint32Max)
    (more : List Frame) :
    Envoy.run .quiet s
        (((eachFrame (before ++ [c] ++ more)).map Callback.data).map Callback.toEnvoy) =
      Envoy.run .quiet s
        ((((before ++ [c]).map Frame.encode).map Callback.data).map Callback.toEnvoy) := by
  have hnoping : NoPingAfterClose (before ++ [c]) := by
    refine List.pairwise_append.mpr ⟨?_, List.pairwise_singleton _ _, ?_⟩
    · exact List.pairwise_of_forall_mem_list fun f hf _ _ hc => absurd hc (hbefore f hf)
    · exact fun f hf _ _ hc => absurd hc (hbefore f hf)
  have hstart : Abreast id s t (before ++ [c])
      (clientBytes (((before ++ [c]).map Frame.encode).map .data) ++ []) s t := by
    rw [clientBytes_data, List.append_nil, ← List.flatMap_def]
    exact .start hs ht
  have hmiddle := hstart.run (fun f hf => hwidth f (List.mem_append_left after hf))
    (by
      rw [WebSocket.encodeAll_append, List.length_append] at htotal
      omega)
    hnoping (encodes_data _)
  have hclosing := hmiddle.closing ⟨c, by simp, hclose⟩
  rw [eachFrame_append, List.map_append, List.map_append, Envoy.run, List.foldl_append]
  exact run_closing hmiddle.mirrored.fault hclosing (eachFrame more)

end Simulation

/-- The filters ask for the same, in every order of the callbacks and wherever the client's
bytes are cut, if no Ping follows a Close; and otherwise not. -/
theorem filters_agree_iff (env : Wasm.Env) (hbits : 32 ≤ env.bits) {id : UInt32} {s : Filter}
    {t : WsBridgeStream} (hs : Envoy.Open s) (ht : Wasm.Open t id) (frames : List Frame)
    (hlength : ∀ f ∈ frames, f.payload.length < 2 ^ 31)
    (htotal : (encodeAll frames).length ≤ Envoy.uint32Max) :
    (∀ callbacks : List Callback, (∀ c ∈ callbacks, c.Encodes env.bits) →
        clientBytes callbacks <+: encodeAll frames → Agree env id s t callbacks) ↔
      NoPingAfterClose frames := by
  have hwidth : ∀ f ∈ frames, f.encode.length < 2 ^ env.bits := by
    intro f hf
    have hpow : 2 ^ 32 ≤ 2 ^ env.bits := Nat.pow_le_pow_right (by decide) hbits
    have hle := f.length_encode_le
    have hf := hlength f hf
    omega
  constructor
  · intro hagree
    by_contra hping
    obtain ⟨before, c, after, rfl, hbefore, hclose, g, hg, hp⟩ := Wasm.exists_firstClose hping
    rw [List.append_cons] at hagree hwidth htotal
    -- up to the Close, and beyond it
    have hpart : clientBytes ((eachFrame (before ++ [c] ++ [])).map .data) <+:
        encodeAll (before ++ [c] ++ after) := by
      rw [clientBytes_data, flatten_eachFrame, List.append_nil,
        WebSocket.encodeAll_append _ after]
      exact List.prefix_append _ _
    have hwhole : clientBytes ((eachFrame (before ++ [c] ++ after)).map .data) <+:
        encodeAll (before ++ [c] ++ after) := by
      exact ((clientBytes_data _).trans (flatten_eachFrame _)).symm ▸ List.prefix_rfl
    obtain ⟨effects, calls, acts, htrace, hcalls, hsame⟩ :=
      (hagree _ (encodes_data _) hpart).1.acts
    obtain ⟨effects', calls', acts', htrace', hcalls', hsame'⟩ :=
      (hagree _ (encodes_data _) hwhole).1.acts
    rw [hsame.wasm, ← hsame.native] at hcalls
    rw [hsame'.wasm, ← hsame'.native] at hcalls'
    rw [run_eachFrame hs ht hbefore hclose hwidth htotal [],
      ← run_eachFrame hs ht hbefore hclose hwidth htotal after, htrace'] at htrace
    have hwidth' : ∀ f ∈ before ++ [c] ++ [], f.encode.length < 2 ^ env.bits := by
      rw [List.append_nil]
      exact fun f hf => hwidth f (List.mem_append_left after hf)
    have hid : Wasm.idAfter (some id) (before ++ [c]) = none := if_pos ⟨c, by simp, hclose⟩
    rw [run_data, calls_eachFrame ht hwidth] at hcalls'
    rw [run_data, calls_eachFrame ht hwidth', ← List.append_cancel_left htrace, ← hcalls',
      List.append_nil, Wasm.streamCalls_append _ _ after, hid] at hcalls
    have hnil := List.append_right_eq_self.mp (List.append_cancel_left hcalls).symm
    exact Wasm.streamCalls_closed.mp hnil g hg hp
  · rintro hnoping callbacks hencodes ⟨more, hmore⟩
    have hstart : Abreast id s t frames (clientBytes callbacks ++ more) s t :=
      hmore ▸ .start hs ht
    have hend := hstart.run hwidth htotal hnoping hencodes
    exact ⟨hend.mirrored, fun status => hend.remoteClose status⟩

/-- A text, a Ping and a Close, cut inside the text and inside the Ping, with a message from
the server in the middle of the Ping. -/
theorem filters_agree_iff_cut :
    Agree ⟨32, .ascii, fun _ => none⟩ 7
      { config := ⟨[], []⟩, state := .active, grpcCallbacks := true, grpcStream := true }
      { state := .active, grpcStreamId := some 7, grpcCluster := [], grpcService := [] }
      [.data [0x81, 0x01], .data [0x41, 0x89, 0x01],
        .message ⟨[0x42], true⟩ [0x0A, 1, 0x42, 0x10, 1], .data [0x05, 0x88, 0x00]] :=
  (filters_agree_iff ⟨32, .ascii, fun _ => none⟩ (by decide) ⟨rfl, rfl, rfl, rfl, rfl⟩
    ⟨rfl, rfl, rfl, rfl⟩
    [⟨true, 0, 1, none, .short, [0x41], by decide⟩, ⟨true, 0, 9, none, .short, [5], by decide⟩,
      ⟨true, 0, 8, none, .short, [], by decide⟩] (by decide) (by decide)).mpr (by decide) _
    (by decide) (by decide)

end Grpcgi
