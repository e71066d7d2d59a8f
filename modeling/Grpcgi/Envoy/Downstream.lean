import Mathlib.Data.List.Induction
import Mathlib.Data.List.TakeWhile
import Grpcgi.CodecAgreement
import Grpcgi.Envoy.Reentry

/-!
# The server-to-client path of the native filter

What the filter writes to the client, in every run and under every Envoy. The bytes are
whole frames as RFC 6455 has a server send them: the messages that came after the
initial metadata, in order, Pongs between them, and at most one Close. The Close is
the last frame, and no other one ends the stream.
-/

namespace Grpcgi.Envoy

open WebSocket (Frame encodeAll)
open Incremental (Decoder)

/-- The bytes of a write and whether it is the last one. -/
def Effect.written? : Effect → Option (Bytes × Bool)
  | .addEncodedData data endStream => some (data, endStream)
  | _ => none

/-- The writes of the filter, in order. -/
def written (s : Filter) : List (Bytes × Bool) := s.trace.filterMap Effect.written?

def Event.message? : Event → Option Proto.Frame
  | .onReceiveMessage message => some message
  | _ => none

/-- The messages from the stream once it is ready. -/
def heard (events : List Event) : List Proto.Frame :=
  (events.dropWhile fun e => decide (e ≠ .onReceiveInitialMetadata)).filterMap Event.message?

/-- The message of a data frame. -/
def messageOf (f : Frame) : Option Proto.Frame :=
  if f.IsData then some { payload := f.payload, binary := decide f.IsBinary } else none

/-- A frame that the filter writes: whole, not masked, a message, a Pong or the Close
for a normal closure. -/
structure FromServer (f : Frame) : Prop where
  fin : f.fin = true
  rsv : f.rsv = 0
  mask : f.mask = none
  kind : f.IsData ∨ f.IsPong ∨ f.IsClose ∧ f.payload = [0x03, 0xE8]

/-- A payload that a `std::string` or a `std::vector` can hold. -/
def Holds (payload : Bytes) : Prop := payload.length < 2 ^ 63

instance (payload : Bytes) : Decidable (Holds payload) := inferInstanceAs (Decidable (_ < _))

/-! ## The frames that are written -/

/-- The encoder writes RFC 6455 frames. -/
theorem encodeFrame_shortest (opcode : Fin 16) {payload : Bytes} (h : Holds payload) :
    encodeFrame (UInt8.ofNat opcode.val) payload =
      (Frame.shortest opcode none payload h).encode := by
  rw [← encodeWsFrame_eq_encodeFrame]
  exact Wasm.wireFrame_eq opcode none h

/-- The frame for a message. -/
def messageFrame (message : Proto.Frame) (h : Holds message.payload) : Frame :=
  Frame.shortest (if message.binary then ⟨2, by decide⟩ else ⟨1, by decide⟩) none message.payload h

theorem messageFrame_encode {message : Proto.Frame} (h : Holds message.payload) :
    encodeFrame (if message.binary then kOpcodeBinary else kOpcodeText) message.payload =
      (messageFrame message h).encode := by
  rw [messageFrame, ← encodeFrame_shortest]
  cases message.binary <;> rfl

theorem messageFrame_isData (message : Proto.Frame) (h : Holds message.payload) :
    (messageFrame message h).IsData := by
  cases hbinary : message.binary with
  | true =>
      refine .inr ?_
      simp [Frame.IsBinary, messageFrame, Frame.shortest, hbinary]
  | false =>
      refine .inl ?_
      simp [Frame.IsText, messageFrame, Frame.shortest, hbinary]

/-- The client finds the message in its frame. -/
theorem messageOf_messageFrame (message : Proto.Frame) (h : Holds message.payload) :
    messageOf (messageFrame message h) = some message := by
  rw [messageOf, if_pos (messageFrame_isData message h)]
  obtain ⟨payload, _ | _⟩ := message <;> rfl

/-- The frame of a Pong. -/
def pongFrame (payload : Bytes) (h : Holds payload) : Frame :=
  Frame.shortest ⟨10, by decide⟩ none payload h

/-- The frame of `buildCloseFrame`. -/
def closeFrame : Frame := Frame.shortest ⟨8, by decide⟩ none [0x03, 0xE8] (by decide)

theorem closeFrame_encode : buildCloseFrame = closeFrame.encode := by decide

/-! ## What one step writes -/

/-- What has been written, while these messages have been heard. -/
structure Spoken (accepted : Prop) (messages : List Proto.Frame) (s : Filter)
    (frames : List Frame) : Prop where
  written_eq : written s = frames.map fun f => (f.encode, decide f.IsClose)
  server : ∀ f ∈ frames, FromServer f
  sofar : frames.filterMap messageOf <+: messages
  current : s.state ≠ .closed → s.fault = none → frames.filterMap messageOf = messages
  closed : s.state ≠ .closed → ∀ f ∈ frames, ¬ f.IsClose
  last : frames.Pairwise fun f _ => ¬ f.IsClose
  callbacks : s.grpcCallbacks = true
  begun : s.state ≠ .passthrough
  waits : s.state = .connecting → ¬ accepted ∧ s.fault = none
  ready : s.state = .active ∨ s.state = .closing → accepted

/-- Some frames have been written. -/
def Speaks (accepted : Prop) (messages : List Proto.Frame) (s : Filter) : Prop :=
  ∃ frames, Spoken accepted messages s frames

namespace Speaks

variable {accepted : Prop} {messages : List Proto.Frame} {s : Filter}

/-- A step that writes nothing, and may change the state. -/
theorem silent (h : Speaks accepted messages s) {t : Filter} (hwritten : written t = written s)
    (hstate : t.state = s.state ∨ t.state = .closed ∨ s.state = .active ∧ t.state = .closing)
    (hfault : t.fault = s.fault) (hcallbacks : t.grpcCallbacks = s.grpcCallbacks) :
    Speaks accepted messages t := by
  obtain ⟨frames, h⟩ := h
  have hopen : t.state ≠ .closed → s.state ≠ .closed := by
    intro hne
    obtain heq | heq | ⟨hactive, -⟩ := hstate
    · exact heq ▸ hne
    · exact absurd heq hne
    · simp [hactive]
  refine ⟨frames, hwritten.trans h.written_eq, h.server, h.sofar, ?_, ?_, h.last,
    hcallbacks.trans h.callbacks, ?_, ?_, ?_⟩
  · intro hne hnone
    exact h.current (hopen hne) (hfault ▸ hnone)
  · exact fun hne => h.closed (hopen hne)
  · obtain heq | heq | ⟨-, heq⟩ := hstate
    · exact heq ▸ h.begun
    · simp [heq]
    · simp [heq]
  · intro hconnecting
    rw [hfault]
    obtain heq | heq | ⟨-, heq⟩ := hstate
    · exact h.waits (heq ▸ hconnecting)
    · simp [heq] at hconnecting
    · simp [heq] at hconnecting
  · intro hready
    obtain heq | heq | ⟨hactive, -⟩ := hstate
    · exact h.ready (heq ▸ hready)
    · simp [heq] at hready
    · exact h.ready (.inl hactive)

/-- The parser throws. -/
theorem fail (h : Speaks accepted messages s) (hstate : s.state ≠ .connecting) (e : Fault) :
    Speaks accepted messages (s.fail e) := by
  obtain ⟨frames, h⟩ := h
  exact ⟨frames, h.written_eq, h.server, h.sofar, fun _ hnone => absurd hnone (by simp),
    h.closed, h.last, h.callbacks, h.begun, fun hconnecting => absurd hconnecting hstate, h.ready⟩

/-- One more frame, which is no Close, in an open filter. -/
theorem write (h : Speaks accepted messages s) {f : Frame} (hserver : FromServer f)
    (hclose : ¬ f.IsClose) (hopen : s.state = .active ∨ s.state = .closing)
    (hfault : s.fault = none) :
    Speaks accepted (messages ++ (messageOf f).toList)
      (s.emit (.addEncodedData f.encode false)) := by
  obtain ⟨frames, h⟩ := h
  have hne : s.state ≠ .closed := by
    obtain hs | hs := hopen <;> simp [hs]
  have hall := h.current hne hfault
  have hnext : (frames ++ [f]).filterMap messageOf = messages ++ (messageOf f).toList := by
    rw [List.filterMap_append, hall]
    cases hmessage : messageOf f <;> simp [hmessage]
  refine ⟨frames ++ [f], ?_, ?_, hnext ▸ List.prefix_rfl, fun _ _ => hnext, ?_, ?_, h.callbacks,
    h.begun, ?_, h.ready⟩
  · have hbefore : s.trace.filterMap Effect.written? = _ := h.written_eq
    rw [written, emit_trace, List.filterMap_append, hbefore, List.map_append]
    simp [Effect.written?, hclose]
  · intro g hg
    obtain hg | hg := List.mem_append.mp hg
    · exact h.server g hg
    · exact List.mem_singleton.mp hg ▸ hserver
  · intro _ g hg
    obtain hg | hg := List.mem_append.mp hg
    · exact h.closed hne g hg
    · exact List.mem_singleton.mp hg ▸ hclose
  · rw [List.pairwise_append]
    exact ⟨h.last, List.pairwise_singleton _ _, fun g hg _ _ => h.closed hne g hg⟩
  · intro hconnecting
    obtain hs | hs := hopen <;> rw [emit_state, hs] at hconnecting <;> cases hconnecting

theorem pong (h : Speaks accepted messages s) {payload : Bytes} (hholds : Holds payload)
    (hactive : s.state = .active) (hfault : s.fault = none) :
    Speaks accepted messages
      (s.emit (.addEncodedData (encodeFrame kOpcodePong payload) false)) := by
  have hserver : FromServer (pongFrame payload hholds) := ⟨rfl, rfl, rfl, .inr (.inl rfl)⟩
  have hpong : (pongFrame payload hholds).opcode = 10 := rfl
  have hclose : ¬ (pongFrame payload hholds).IsClose := by
    rw [Frame.IsClose, hpong]
    decide
  have hdata : ¬ (pongFrame payload hholds).IsData := by
    rw [Frame.IsData, Frame.IsText, Frame.IsBinary, hpong]
    decide
  have hmessage : messageOf (pongFrame payload hholds) = none := if_neg hdata
  have hwrite := h.write hserver hclose (.inl hactive) hfault
  rw [hmessage, Option.toList_none, List.append_nil, pongFrame, ← encodeFrame_shortest] at hwrite
  exact hwrite

theorem message (h : Speaks accepted messages s) {message : Proto.Frame}
    (hholds : Holds message.payload) (hopen : s.state = .active ∨ s.state = .closing)
    (hfault : s.fault = none) :
    Speaks accepted (messages ++ [message]) (s.emit (.addEncodedData
      (encodeFrame (if message.binary then kOpcodeBinary else kOpcodeText) message.payload)
      false)) := by
  have hdata := messageFrame_isData message hholds
  have hserver : FromServer (messageFrame message hholds) := ⟨rfl, rfl, rfl, .inl hdata⟩
  have hwrite := h.write hserver (fun hclose => Frame.not_data_of_close hclose hdata) hopen hfault
  rw [messageOf_messageFrame, Option.toList_some, ← messageFrame_encode] at hwrite
  exact hwrite

/-- The Close is the last frame. -/
theorem onRemoteClose (h : Speaks accepted messages s) :
    Speaks accepted messages (onRemoteClose s) := by
  by_cases hclosed : s.state = .closed
  · rwa [onRemoteClose_closed hclosed]
  · obtain ⟨frames, h⟩ := h
    have hnone : messageOf closeFrame = none := if_neg (by decide)
    have hmessages : (frames ++ [closeFrame]).filterMap messageOf = frames.filterMap messageOf := by
      rw [List.filterMap_append, List.filterMap_cons_none hnone, List.filterMap_nil,
        List.append_nil]
    rw [onRemoteClose_open hclosed]
    refine ⟨frames ++ [closeFrame], ?_, ?_, hmessages ▸ h.sofar, by simp, by simp, ?_,
      h.callbacks, by simp, by simp, by simp⟩
    · have hbefore : s.trace.filterMap Effect.written? = _ := h.written_eq
      have hclose : closeFrame.IsClose := rfl
      have hwrite : [Effect.addEncodedData closeFrame.encode true].filterMap Effect.written? =
        [(closeFrame.encode, true)] := rfl
      have hreset : [Effect.resetDownstream].filterMap Effect.written? = [] := rfl
      simp only [written, List.filterMap_append, hbefore, List.map_append, List.map_singleton,
        closeFrame_encode, hclose, decide_true, hwrite, hreset, List.append_nil]
    · intro f hf
      obtain hf | hf := List.mem_append.mp hf
      · exact h.server f hf
      · rw [List.mem_singleton.mp hf]
        exact ⟨rfl, rfl, rfl, .inr (.inr ⟨rfl, rfl⟩)⟩
    · rw [List.pairwise_append]
      exact ⟨h.last, List.pairwise_singleton _ _, fun f hf _ _ => h.closed hclosed f hf⟩

/-- A call that Envoy may interrupt. -/
theorem call {e : Effect} (h : Speaks accepted messages (s.emit e)) (env : Env) :
    Speaks accepted messages (s.call env e) := by
  obtain hcall | hcall := call_cases e s env <;> rw [hcall]
  · exact h
  · exact h.onRemoteClose

/-- A call on another object writes nothing. -/
theorem emit (h : Speaks accepted messages s) {e : Effect} (he : e.written? = none) :
    Speaks accepted messages (s.emit e) := by
  refine h.silent ?_ (.inl rfl) rfl rfl
  rw [written, emit_trace, List.filterMap_append, List.filterMap_cons_none he,
    List.filterMap_nil, List.append_nil, written]

/-! ## The callbacks -/

theorem closeGrpcStream (h : Speaks accepted messages s) (env : Env) :
    Speaks accepted messages (closeGrpcStream env s) := by
  simp only [Envoy.closeGrpcStream]
  split
  · exact h
  · rename_i hstate
    have hclosing : Speaks accepted messages { s with state := .closing } :=
      h.silent rfl (.inr (.inr ⟨not_not.mp hstate, rfl⟩)) rfl rfl
    split
    · exact (hclosing.emit rfl).call env
    · exact hclosing

/-- The payload of a frame fits into a vector. -/
theorem holds_of_attempt {bs : Bytes} {frame : WsFrame} {n : Nat}
    (h : frameDecoder.attempt bs = .item frame n) : Holds frame.payload := by
  obtain ⟨-, -, header, payload, -, -, -, hok, rfl⟩ := attemptFrame_item h
  obtain ⟨hmax, hlength⟩ := unmaskPayload_bound hok
  rw [unmaskPayload, if_neg (Nat.not_lt_of_le hmax), if_neg (Nat.not_lt_of_le hlength)] at hok
  obtain rfl := Except.ok.inj hok
  simp only [Holds, List.length_mapIdx, List.length_take, kVectorMaxSize] at hmax ⊢
  omega

/-- One frame of the client. -/
theorem dispatch (h : Speaks accepted messages s) (hactive : s.state = .active)
    (hfault : s.fault = none) (env : Env) {frame : WsFrame} (hholds : Holds frame.payload) :
    Speaks accepted messages (Envoy.dispatch env s frame).1 ∧
      ((Envoy.dispatch env s frame).2 = true →
        (Envoy.dispatch env s frame).1.state = .active ∧
          (Envoy.dispatch env s frame).1.fault = none) := by
  have hquiet : Speaks accepted messages (Envoy.dispatch .quiet s frame).1 ∧
      ((Envoy.dispatch .quiet s frame).2 = true →
        (Envoy.dispatch .quiet s frame).1.state = .active ∧
          (Envoy.dispatch .quiet s frame).1.fault = none) := by
    simp only [Envoy.dispatch]
    split
    · simp only [forwardDataFrame, call_quiet]
      rw [if_neg (not_not.mpr hactive)]
      split
      · refine ⟨h.fail (by simp [hactive]) _, ?_⟩
        simp
      · refine ⟨h.emit rfl, fun _ => ?_⟩
        rw [emit_state, emit_fault]
        exact ⟨hactive, hfault⟩
    · split
      · rw [call_quiet]
        refine ⟨h.pong hholds hactive hfault, fun _ => ?_⟩
        rw [emit_state, emit_fault]
        exact ⟨hactive, hfault⟩
      · split
        · exact ⟨h, fun _ => ⟨hactive, hfault⟩⟩
        · split
          · exact ⟨h.closeGrpcStream .quiet, by simp⟩
          · exact ⟨h, fun _ => ⟨hactive, hfault⟩⟩
  obtain hd | hd := dispatch_cases env s frame <;> rw [hd]
  · exact hquiet
  · exact ⟨hquiet.1.onRemoteClose, by simp⟩

/-- One call of the parser. -/
theorem processWebSocketData (h : Speaks accepted messages s) (hactive : s.state = .active)
    (hfault : s.fault = none) (env : Env) (buf : Bytes) (endStream : Bool) :
    Speaks accepted messages (processWebSocketData env buf endStream s) := by
  have hclear : Speaks accepted messages { s with frameRemainder := [] } :=
    h.silent rfl (.inl rfl) rfl rfl
  have hloop := Decoder.scan_settled_item frameDecoder (Envoy.dispatch env)
    (P := fun t => Speaks accepted messages t ∧ t.state = .active ∧ t.fault = none)
    (Q := Speaks accepted messages)
    (fun t frame ⟨_, _, hitem⟩ ⟨ht, hta, htf⟩ =>
      have hone := ht.dispatch hta htf env (holds_of_attempt hitem)
      ⟨fun hgo => ⟨hone.1, hone.2 hgo⟩, fun _ => hone.1⟩)
    ⟨hclear, hactive, hfault⟩ ((s.frameRemainder ++ buf).take uint32Max)
  rw [processWebSocketData_eq env buf endStream hactive]
  generalize frameDecoder.scan (Envoy.dispatch env) _ _ = result at hloop ⊢
  have hleave : Speaks accepted messages (leave result).1 := by
    cases hloop with
    | rest ht => exact ht.1.silent rfl (.inl rfl) rfl rfl
    | stopped ht => exact ht
    | fault ht _ => exact ht.1.fail (by simp [ht.2.1]) _
  obtain hend | hend := closeAtEnd_cases env endStream (leave result) <;> rw [hend]
  · exact hleave
  · exact hleave.closeGrpcStream env

/-- A filter that has stopped does not hear. -/
theorem deaf (h : Speaks accepted messages s) (hstop : s.state = .closed ∨ s.fault.isSome)
    (more : List Proto.Frame) : Speaks accepted (messages ++ more) s := by
  obtain ⟨frames, h⟩ := h
  refine ⟨frames, h.written_eq, h.server, h.sofar.trans (List.prefix_append _ _), ?_, h.closed,
    h.last, h.callbacks, h.begun, h.waits, h.ready⟩
  intro hne hnone
  obtain hclosed | hfault := hstop
  · exact absurd hclosed hne
  · rw [hnone] at hfault
    cases hfault

/-- A message that comes once the stream is ready. -/
theorem onReceiveMessage (h : Speaks accepted messages s) (env : Env) {message : Proto.Frame}
    (hholds : Holds message.payload) (haccepted : accepted) (hfault : s.fault = none) :
    Speaks accepted (messages ++ [message]) (onReceiveMessage env message s) := by
  simp only [Envoy.onReceiveMessage]
  split
  · rename_i hstate
    apply h.deaf
    obtain ⟨frames, h⟩ := h
    cases hs : s.state with
    | passthrough => exact absurd hs h.begun
    | connecting => exact absurd haccepted (h.waits hs).1
    | active => exact absurd hs hstate.1
    | closing => exact absurd hs hstate.2
    | closed => exact .inl rfl
  · rename_i hstate
    have hopen : s.state = .active ∨ s.state = .closing := by
      by_cases hactive : s.state = .active
      · exact .inl hactive
      · exact .inr (not_not.mp fun hclosing => hstate ⟨hactive, hclosing⟩)
    exact (h.message hholds hopen hfault).call env

/-- A callback other than the initial metadata. -/
theorem step (h : Speaks accepted messages s) (env : Env) {e : Event}
    (hholds : ∀ message, e = .onReceiveMessage message → Holds message.payload)
    (hready : e ≠ .onReceiveInitialMetadata) {messages' : List Proto.Frame}
    (hheard : accepted → messages' = messages ++ e.message?.toList)
    (hdeaf : ¬ accepted → messages' = messages) :
    Speaks accepted messages' (step env s e) := by
  have hsame : e.message? = none → messages' = messages := by
    intro hnone
    by_cases haccepted : accepted
    · rw [hheard haccepted, hnone, Option.toList_none, List.append_nil]
    · exact hdeaf haccepted
  have hcallbacks : s.grpcCallbacks = true := by
    obtain ⟨frames, h⟩ := h
    exact h.callbacks
  simp only [Envoy.step, if_pos hcallbacks]
  split
  · rename_i hfault
    by_cases haccepted : accepted
    · rw [hheard haccepted]
      exact h.deaf (.inr hfault) _
    · rw [hdeaf haccepted]
      exact h
  · rename_i hfault
    have hfault : s.fault = none := Option.not_isSome_iff_eq_none.mp hfault
    cases e with
    | decodeData data endStream =>
        rw [hsame rfl]
        simp only [decodeData]
        split
        · exact h
        · exact h.silent rfl (.inl rfl) rfl rfl
        · exact h
        · exact h
        · rename_i hactive
          exact h.processWebSocketData hactive hfault env data endStream
    | onReceiveInitialMetadata => exact absurd rfl hready
    | onReceiveMessage message =>
        simp only
        by_cases haccepted : accepted
        · rw [hheard haccepted]
          exact h.onReceiveMessage env (hholds message rfl) haccepted hfault
        · rw [hdeaf haccepted]
          have hstate : s.state ≠ .active ∧ s.state ≠ .closing := by
            obtain ⟨frames, h⟩ := h
            exact ⟨fun hs => haccepted (h.ready (.inl hs)), fun hs => haccepted (h.ready (.inr hs))⟩
          simp only [Envoy.onReceiveMessage, if_pos hstate]
          exact h
    | onRemoteClose =>
        rw [hsame rfl]
        exact h.onRemoteClose
    | encodeHeaders =>
        rw [hsame rfl]
        exact h.emit rfl
    | onDestroy =>
        rw [hsame rfl]
        simp only [onDestroy]
        split
        · have hreset : Speaks accepted messages
              { s.emit .resetGrpcStream with grpcStream := false, state := .closed } :=
            (h.emit rfl).silent rfl (.inr (.inl rfl)) rfl rfl
          exact hreset.emit rfl
        · have hclosed : Speaks accepted messages { s with state := .closed } :=
            h.silent rfl (.inr (.inl rfl)) rfl rfl
          exact hclosed.emit rfl

/-- A filter that does not wait has its stream. -/
theorem accept (h : Speaks accepted messages s) (hstate : s.state ≠ .connecting) :
    Speaks True messages s := by
  obtain ⟨frames, h⟩ := h
  exact ⟨frames, h.written_eq, h.server, h.sofar, h.current, h.closed, h.last, h.callbacks,
    h.begun, fun hs => absurd hs hstate, fun _ => trivial⟩

/-- The initial metadata. -/
theorem step_ready (h : Speaks accepted messages s) (env : Env) :
    Speaks True messages (Envoy.step env s .onReceiveInitialMetadata) := by
  have hwaits : s.state = .connecting → s.fault = none := by
    obtain ⟨frames, h⟩ := h
    exact fun hs => (h.waits hs).2
  have hcallbacks : s.grpcCallbacks = true := by
    obtain ⟨frames, h⟩ := h
    exact h.callbacks
  simp only [Envoy.step, if_pos hcallbacks, onReceiveInitialMetadata]
  split
  · rename_i hfault
    refine h.accept fun hs => ?_
    rw [hwaits hs] at hfault
    cases hfault
  · split
    · rename_i hstate
      exact h.accept hstate
    · rename_i hfault hstate
      have hfault : s.fault = none := Option.not_isSome_iff_eq_none.mp hfault
      have hactive : Speaks True messages { s with state := .active } := by
        obtain ⟨frames, h⟩ := h
        have hne : s.state ≠ .closed := by simp [not_not.mp hstate]
        exact ⟨frames, h.written_eq, h.server, h.sofar, fun _ _ => h.current hne hfault,
          fun _ => h.closed hne, h.last, hcallbacks, by simp, by simp, fun _ => trivial⟩
      split
      · exact hactive.processWebSocketData rfl hfault env _ false
      · exact hactive

end Speaks

/-! ## Runs -/

theorem heard_waiting {events : List Event} (h : .onReceiveInitialMetadata ∉ events)
    (e : Event) : heard (events ++ [e]) = [] := by
  have hdrop : events.dropWhile (fun e => decide (e ≠ .onReceiveInitialMetadata)) = [] := by
    rw [List.dropWhile_eq_nil_iff]
    intro a ha
    rw [decide_eq_true_eq]
    rintro rfl
    exact h ha
  rw [heard, List.dropWhile_append, hdrop, List.isEmpty_nil, if_pos rfl]
  cases e <;> rfl

theorem heard_ready {events : List Event} (h : .onReceiveInitialMetadata ∈ events) (e : Event) :
    heard (events ++ [e]) = heard events ++ e.message?.toList := by
  have hdrop : events.dropWhile (fun e => decide (e ≠ .onReceiveInitialMetadata)) ≠ [] := by
    rw [Ne, List.dropWhile_eq_nil_iff]
    intro hall
    simpa using hall _ h
  rw [heard, List.dropWhile_append, if_neg (by simpa using hdrop), List.filterMap_append]
  cases hmessage : e.message? <;> simp [heard, hmessage]

theorem heard_nil_of_waiting {events : List Event} (h : .onReceiveInitialMetadata ∉ events) :
    heard events = [] := by
  obtain rfl | ⟨events, e, rfl⟩ := List.eq_nil_or_concat' events
  · rfl
  · exact heard_waiting (fun hmem => h (List.mem_append_left _ hmem)) e

/-- Other callbacks are not heard. -/
theorem heard_other (events : List Event) {e : Event} (h : e.message? = none) :
    heard (events ++ [e]) = heard events := by
  by_cases hready : .onReceiveInitialMetadata ∈ events
  · rw [heard_ready hready, h, Option.toList_none, List.append_nil]
  · rw [heard_waiting hready, heard_nil_of_waiting hready]

theorem heard_grows (events : List Event) (e : Event) : heard events <+: heard (events ++ [e]) := by
  by_cases hready : .onReceiveInitialMetadata ∈ events
  · rw [heard_ready hready]
    exact List.prefix_append _ _
  · rw [heard_nil_of_waiting hready]
    exact List.nil_prefix

/-- The filter after an upgrade request. -/
theorem speaks_opened (config : WsGrpcBridgeConfig) {headers : HeaderMap}
    (hupgrade : isWebSocketUpgrade headers = true) (outcome : StartOutcome) :
    Speaks False [] (opened config headers outcome) := by
  obtain ⟨remoteClose, stream⟩ := outcome
  have hstart : Speaks False [] { config, state := .connecting, grpcCallbacks := true } :=
    ⟨[], rfl, by simp, List.nil_prefix, fun _ _ => rfl, by simp, List.Pairwise.nil, rfl, by simp,
      fun _ => ⟨id, rfl⟩, by simp⟩
  have hemit := hstart.emit (show (Effect.start config.clusterName config.authority
    (initialMetadata headers)).written? = none from rfl)
  have hstream (t : Filter) (b : Bool) (ht : Speaks False [] t) :
      Speaks False [] { t with grpcStream := b } := ht.silent rfl (.inl rfl) rfl rfl
  simp only [opened, decodeHeaders, hupgrade, if_true, startGrpcStream, Bool.false_eq_true,
    if_false]
  have hclosed (t : Filter) (ht : Speaks False [] t) :
      Speaks False [] { t with state := .closed } :=
    ht.silent rfl (.inr (.inl rfl)) rfl rfl
  cases remoteClose with
  | false =>
      cases stream with
      | false => exact (hclosed _ (hstream _ false hemit)).emit rfl
      | true => exact hstream _ true hemit
  | true =>
      cases stream with
      | false => exact (hclosed _ (hstream _ false hemit.onRemoteClose)).emit rfl
      | true => exact hstream _ true hemit.onRemoteClose

theorem speaks_run (env : Env) (config : WsGrpcBridgeConfig) {headers : HeaderMap}
    (hupgrade : isWebSocketUpgrade headers = true) (outcome : StartOutcome) {events : List Event}
    (hholds : ∀ message, .onReceiveMessage message ∈ events → Holds message.payload) :
    Speaks (.onReceiveInitialMetadata ∈ events) (heard events)
      (run env (opened config headers outcome) events) := by
  induction events using List.reverseRecOn with
  | nil =>
      rw [eq_false (List.not_mem_nil (a := Event.onReceiveInitialMetadata))]
      exact speaks_opened config hupgrade outcome
  | append_singleton events e ih =>
      have hbefore := ih fun message hmem => hholds message (List.mem_append_left _ hmem)
      have hconcat : run env (opened config headers outcome) (events ++ [e]) =
          step env (run env (opened config headers outcome) events) e := by
        simp only [run, List.foldl_append, List.foldl_cons, List.foldl_nil]
      rw [hconcat]
      by_cases hready : e = .onReceiveInitialMetadata
      · subst hready
        have hnext := hbefore.step_ready env
        rw [heard_other events rfl]
        simpa using hnext
      · have hsame : (.onReceiveInitialMetadata ∈ events ++ [e]) =
            (.onReceiveInitialMetadata ∈ events) := by
          simp [Ne.symm hready]
        rw [hsame]
        apply hbefore.step env ?_ hready
        · exact fun hmem => heard_ready hmem e
        · intro hmem
          rw [heard_waiting hmem, heard_nil_of_waiting hmem]
        · rintro message rfl
          exact hholds message (List.mem_append_right _ (List.mem_singleton_self _))

/-- Whatever Envoy does, the client gets whole frames: the messages in order, every one
that came while the filter was open, Pongs, and at most one Close, which is last. -/
theorem downstream_frames (env : Env) (config : WsGrpcBridgeConfig) {headers : HeaderMap}
    (hupgrade : isWebSocketUpgrade headers = true) (outcome : StartOutcome) {events : List Event}
    (hholds : ∀ message, .onReceiveMessage message ∈ events → Holds message.payload) :
    let s := run env (opened config headers outcome) events
    ∃ frames : List Frame, written s = frames.map (fun f => (f.encode, decide f.IsClose)) ∧
      (∀ f ∈ frames, FromServer f) ∧ frames.Pairwise (fun f _ => ¬ f.IsClose) ∧
      frames.filterMap messageOf <+: heard events ∧
      (s.state ≠ .closed → (∀ f ∈ frames, ¬ f.IsClose) ∧
        (s.fault = none → frames.filterMap messageOf = heard events)) := by
  intro s
  obtain ⟨frames, h⟩ := speaks_run env config hupgrade outcome hholds
  exact ⟨frames, h.written_eq, h.server, h.last, h.sofar, fun hopen => ⟨h.closed hopen,
    h.current hopen⟩⟩

/-- A message, a Pong and, from inside the second message, the Close. The third message
is not written. -/
theorem downstream_frames_closed :
    let events := [Event.onReceiveInitialMetadata, .onReceiveMessage ⟨[0x48], false⟩,
      .decodeData [0x89, 0x00] false, .onReceiveMessage ⟨[0x01], true⟩,
      .onReceiveMessage ⟨[], true⟩]
    let s := run ⟨fun trace => trace.length = 4⟩
      (opened ⟨"ws".toList, []⟩ [("upgrade".toList, "websocket".toList)] ⟨false, true⟩) events
    written s = [([0x81, 0x01, 0x48], false), ([0x8A, 0x00], false), ([0x82, 0x01, 0x01], false),
      ([0x88, 0x02, 0x03, 0xE8], true)] ∧
    ∃ frames : List Frame, written s = frames.map (fun f => (f.encode, decide f.IsClose)) ∧
      (∀ f ∈ frames, FromServer f) ∧ frames.Pairwise (fun f _ => ¬ f.IsClose) ∧
      frames.filterMap messageOf <+: heard events ∧
      (s.state ≠ .closed → (∀ f ∈ frames, ¬ f.IsClose) ∧
        (s.fault = none → frames.filterMap messageOf = heard events)) :=
  ⟨by decide, downstream_frames _ _ (by decide) _ (by
    intro message hmem
    simp only [List.mem_cons, reduceCtorEq, List.not_mem_nil, or_false, false_or,
      Event.onReceiveMessage.injEq] at hmem
    obtain rfl | rfl | rfl := hmem <;> decide)⟩

end Grpcgi.Envoy
