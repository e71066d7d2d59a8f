import Grpcgi.Envoy.Relay

/-!
# The end of the client's stream

When the request side of the gRPC stream is half closed. How far the parser comes
in the client's bytes is a function of the chunks it is given, and `end_stream`
counts only in a call that reaches the parser: while the filter is connecting, the
bytes are kept and the flag is not.
-/

namespace Grpcgi.Envoy

open Incremental (Decoder)

/-! ## How far the parser comes -/

/-- Where the parser stands after some chunks. -/
inductive Reading where
  /-- these bytes of a cut-off frame are carried over -/
  | reading (rest : Bytes)
  /-- it has met a Close frame -/
  | closed
  /-- it has thrown -/
  | threw
  deriving DecidableEq, Repr

def untilClose (_ : Unit) (frame : WsFrame) : Unit × Bool := ((), frame.opcode != kOpcodeClose)

namespace Reading

/-- One more chunk, of which `linearize` gives no more than 2^32 - 1 bytes. -/
def next : Reading → Bytes → Reading
  | .reading rest, data =>
    match (frameDecoder.scan untilClose () ((rest ++ data).take uint32Max)).2 with
    | .rest r => .reading r
    | .stopped _ => .closed
    | .fault _ _ => .threw
  | .closed, _ => .closed
  | .threw, _ => .threw

/-- The end of the stream, after the last chunk. -/
def finish : Reading → Bool → Reading
  | .reading _, true => .closed
  | r, _ => r

/-- From the beginning of the client's stream. -/
def ofChunks (chunks : List Bytes) : Reading := chunks.foldl next (.reading [])

theorem ofChunks_concat (chunks : List Bytes) (data : Bytes) :
    ofChunks (chunks ++ [data]) = (ofChunks chunks).next data := by
  simp only [ofChunks, List.foldl_append, List.foldl_cons, List.foldl_nil]

@[simp] theorem finish_false (r : Reading) : r.finish false = r := by
  cases r <;> rfl

theorem finish_eq_closed {r : Reading} {endStream : Bool} :
    r.finish endStream = .closed ↔ r = .closed ∨ endStream = true ∧ ∃ rest, r = .reading rest := by
  cases r <;> cases endStream <;> simp [finish]

end Reading

/-! ## The filter follows -/

/-- An active filter that has closed nothing yet. -/
def Unclosed (s : Filter) : Prop := ∃ effects, Live [] s effects ∧ .closeStream ∉ effects

/-- A filter that has half closed the stream, once. -/
def Shut (s : Filter) : Prop := ∃ effects, HalfClosed [] s effects ∧ effects.count .closeStream = 1

/-- The filter with its parser there. -/
def At (s : Filter) : Reading → Prop
  | .reading rest => Unclosed s ∧ s.frameRemainder = rest
  | .closed => Shut s
  | .threw => s.fault.isSome ∧ s.trace.count .closeStream = 0

theorem count_relayed (s : Filter) :
    s.trace.count .closeStream = (s.trace.filter Effect.relayed).count .closeStream :=
  (List.count_filter rfl).symm

theorem Unclosed.count {s : Filter} (h : Unclosed s) : s.trace.count .closeStream = 0 := by
  obtain ⟨effects, hlive, hnone⟩ := h
  rw [count_relayed, hlive.relayed, List.nil_append]
  exact List.count_eq_zero.mpr hnone

theorem Shut.count {s : Filter} (h : Shut s) : s.trace.count .closeStream = 1 := by
  obtain ⟨effects, hclosed, hone⟩ := h
  rw [count_relayed, hclosed.relayed, List.nil_append]
  exact hone

theorem Unclosed.carry {s : Filter} (h : Unclosed s) (r : Bytes) :
    Unclosed { s with frameRemainder := r } := by
  obtain ⟨effects, hlive, hnone⟩ := h
  exact ⟨effects, hlive.carry r, hnone⟩

/-- Closed exactly once, or not at all. -/
theorem At.count {s : Filter} {r : Reading} (h : At s r) :
    s.trace.count .closeStream = 1 ↔ r = .closed := by
  cases r with
  | reading rest => simp [h.1.count]
  | closed => simp [Shut.count h]
  | threw => simp [h.2]

theorem Unclosed.closeGrpcStream {s : Filter} (h : Unclosed s) :
    Shut (closeGrpcStream .quiet s) := by
  obtain ⟨effects, hlive, hnone⟩ := h
  refine ⟨_, hlive.closeGrpcStream, ?_⟩
  rw [List.count_append, List.count_eq_zero.mpr hnone]
  rfl

/-- A frame closes the stream if it is a Close frame. -/
theorem Unclosed.dispatch {s : Filter} (h : Unclosed s) (frame : WsFrame) :
    ∃ s' go, dispatch .quiet s frame = (s', go) ∧ untilClose () frame = ((), go) ∧
      (go = true → Unclosed s') ∧ (go = false → Shut s') := by
  obtain ⟨effects, hlive, hnone⟩ := h
  obtain ⟨s', effects', go, hdispatch, hrelay, hrun, hstop⟩ := hlive.dispatch frame
  simp only [relayStep, Prod.mk.injEq] at hrelay
  obtain ⟨rfl, hgo⟩ := hrelay
  refine ⟨s', go, hdispatch, by rw [untilClose, hgo], ?_, ?_⟩
  · rintro rfl
    refine ⟨_, hrun rfl, ?_⟩
    intro hmem
    obtain hmem | hmem := List.mem_append.mp hmem
    · exact hnone hmem
    · have hopcode : frame.opcode ≠ kOpcodeClose := by simpa using hgo
      simp only [frameEffects, if_neg hopcode] at hmem
      split_ifs at hmem <;> simp at hmem
  · rintro rfl
    refine ⟨_, hstop rfl, ?_⟩
    have hopcode : frame.opcode = kOpcodeClose := by simpa using hgo
    have heffects : frameEffects frame = [.closeStream] := by
      simp [frameEffects, hopcode, kOpcodeClose, kOpcodeText, kOpcodeBinary, kOpcodePing]
    rw [heffects, List.count_append, List.count_eq_zero.mpr hnone]
    rfl

/-- The loop over the frames of one call. -/
theorem Unclosed.scan {s : Filter} (h : Unclosed s) (raw : Bytes) :
    Decoder.Related (fun s _ => Unclosed s) (fun s _ => Shut s)
      (frameDecoder.scan (Envoy.dispatch .quiet) s raw) (frameDecoder.scan untilClose () raw) := by
  apply Decoder.scan_related frameDecoder
  · intro s u frame hs
    obtain ⟨s', go, hdispatch, huntil, hrun, hstop⟩ := hs.dispatch frame
    exact ⟨s', (), go, hdispatch, huntil, hrun, hstop⟩
  · exact h

/-- One call of the parser, and the half close after it. -/
theorem Unclosed.processWebSocketData {s : Filter} (h : Unclosed s) (buf : Bytes)
    (endStream : Bool) :
    At (processWebSocketData .quiet buf endStream s)
      (((Reading.reading s.frameRemainder).next buf).finish endStream) := by
  have hactive : s.state = .active := by
    obtain ⟨effects, hlive, -⟩ := h
    exact hlive.state
  rw [processWebSocketData_eq .quiet buf endStream hactive]
  simp only [Reading.next]
  have hrel := (h.carry []).scan ((s.frameRemainder ++ buf).take uint32Max)
  generalize frameDecoder.scan (Envoy.dispatch .quiet) _ _ = real at hrel ⊢
  generalize frameDecoder.scan untilClose () _ = ideal at hrel ⊢
  cases hrel with
  | @rest t _ r hlive =>
      have hkept := hlive.carry r
      cases endStream with
      | false => exact ⟨hkept, rfl⟩
      | true =>
          obtain ⟨effects, hopen, -⟩ := hlive
          have hgo : (true && t.state == .active) = true := by
            rw [hopen.state]
            rfl
          simp only [leave, closeAtEnd, if_pos hgo]
          exact hkept.closeGrpcStream
  | stopped hshut => exact hshut
  | fault hlive => exact ⟨rfl, hlive.count⟩

/-! ## Runs -/

/-- The bytes of a call that delivers some. -/
def Event.chunk : Event → Option Bytes
  | .decodeData data _ => some data
  | _ => none

/-- What the parser is given, call by call: when the stream becomes ready,
everything so far at once, and from then on each chunk. -/
def chunks : Bytes → List Event → List Bytes
  | _, [] => []
  | pending, .onReceiveInitialMetadata :: events => pending :: events.filterMap Event.chunk
  | pending, e :: events => chunks (pending ++ e.bytes) events

theorem chunks_append {before : List Event} (h : .onReceiveInitialMetadata ∉ before)
    (pending : Bytes) (after : List Event) :
    chunks pending (before ++ .onReceiveInitialMetadata :: after) =
      (pending ++ received before) :: after.filterMap Event.chunk := by
  induction before generalizing pending with
  | nil => simp [chunks, received]
  | cons e events ih =>
      have hcons : chunks pending (e :: (events ++ .onReceiveInitialMetadata :: after)) =
          chunks (pending ++ e.bytes) (events ++ .onReceiveInitialMetadata :: after) := by
        cases e with
        | onReceiveInitialMetadata => exact absurd List.mem_cons_self h
        | _ => rfl
      rw [List.cons_append, hcons, ih (List.not_mem_of_not_mem_cons h)]
      simp [received]

/-- One call of `decodeData`. -/
theorem At.step_data {s : Filter} {r : Reading} (h : At s r) (data : Bytes) (endStream : Bool) :
    At (step .quiet s (.decodeData data endStream)) ((r.next data).finish endStream) := by
  cases r with
  | reading rest =>
      obtain ⟨hopen, rfl⟩ := h
      obtain ⟨effects, hlive, -⟩ := id hopen
      have hstep : step .quiet s (.decodeData data endStream) =
          processWebSocketData .quiet data endStream s := by
        simp [step, hlive.fault, decodeData, hlive.state]
      rw [hstep]
      exact hopen.processWebSocketData data endStream
  | closed =>
      obtain ⟨effects, hclosed, hone⟩ := h
      have hstep : step .quiet s (.decodeData data endStream) = s := by
        simp [step, hclosed.fault, decodeData, hclosed.state]
      rw [hstep]
      exact ⟨effects, hclosed, hone⟩
  | threw =>
      have hstep : step .quiet s (.decodeData data endStream) = s := if_pos h.1
      rw [hstep]
      exact h

theorem At.emit {s : Filter} {r : Reading} (h : At s r) {e : Effect} (he : e.relayed = false) :
    At (s.emit e) r := by
  have hfilter : [e].filter Effect.relayed = [] := List.filter_cons_of_neg (by simp [he])
  have hcount : (s.emit e).trace.count .closeStream = s.trace.count .closeStream := by
    rw [count_relayed, count_relayed, emit_trace, List.filter_append, hfilter, List.append_nil]
  cases r with
  | reading rest =>
      obtain ⟨⟨effects, hlive, hnone⟩, hrest⟩ := h
      have hemit := hlive.emit e
      rw [hfilter, List.append_nil] at hemit
      exact ⟨⟨effects, hemit, hnone⟩, hrest⟩
  | closed =>
      obtain ⟨effects, hclosed, hone⟩ := h
      exact ⟨effects, hclosed.emit he, hone⟩
  | threw => exact ⟨h.1, hcount.trans h.2⟩

/-- A filter that has not thrown is past `Connecting`. -/
theorem At.open {s : Filter} {r : Reading} (h : At s r) (hfault : s.fault.isSome = false) :
    s.grpcCallbacks = true ∧ (s.state = .active ∨ s.state = .closing) := by
  cases r with
  | reading rest =>
      obtain ⟨⟨effects, hlive, -⟩, -⟩ := h
      exact ⟨hlive.grpcCallbacks, .inl hlive.state⟩
  | closed =>
      obtain ⟨effects, hclosed, -⟩ := h
      exact ⟨hclosed.grpcCallbacks, .inr hclosed.state⟩
  | threw =>
      rw [h.1] at hfault
      cases hfault

/-- The other callbacks leave the parser where it is. -/
theorem At.step_other {s : Filter} {r : Reading} (h : At s r) {e : Event}
    (hplain : e.plain = true) (hchunk : e.chunk = none) : At (step .quiet s e) r := by
  simp only [step]
  split
  · exact h
  · rename_i hfault
    obtain ⟨hcallbacks, hstate⟩ := h.open (Bool.not_eq_true _ ▸ hfault)
    cases e with
    | decodeData data endStream => cases hchunk
    | onReceiveInitialMetadata =>
        have hready : s.state ≠ .connecting := by
          obtain hs | hs := hstate <;> simp [hs]
        simp only [if_pos hcallbacks, onReceiveInitialMetadata, if_pos hready]
        exact h
    | onReceiveMessage message =>
        have hopen : ¬ (s.state ≠ .active ∧ s.state ≠ .closing) := by
          obtain hs | hs := hstate <;> simp [hs]
        simp only [if_pos hcallbacks, onReceiveMessage, if_neg hopen, call_quiet]
        exact h.emit (relayed_message _ _ _)
    | encodeHeaders => exact h.emit rfl
    | onRemoteClose => cases hplain
    | onDestroy => cases hplain

/-- A run without the end of the stream. -/
theorem At.run {s : Filter} {r : Reading} (h : At s r) (events : List Event)
    (hplain : ∀ e ∈ events, e.plain = true) :
    At (run .quiet s events) ((events.filterMap Event.chunk).foldl Reading.next r) := by
  induction events generalizing s r with
  | nil => exact h
  | cons e events ih =>
      obtain ⟨he, hrest⟩ := List.forall_mem_cons.mp hplain
      cases hchunk : e.chunk with
      | none =>
          rw [List.filterMap_cons_none hchunk]
          exact ih (h.step_other he hchunk) hrest
      | some data =>
          rw [List.filterMap_cons_some hchunk]
          cases e with
          | decodeData bytes endStream =>
              cases hchunk
              obtain rfl : endStream = false := by simpa [Event.plain] using he
              have hstep := h.step_data data false
              rw [Reading.finish_false] at hstep
              exact ih hstep hrest
          | _ => cases hchunk

/-- While the filter is connecting, the end of the stream is as any other chunk. -/
theorem Waiting.step_data {s : Filter} {bs : Bytes} (h : Waiting s bs) (data : Bytes)
    (endStream : Bool) :
    Waiting (Envoy.step .quiet s (.decodeData data endStream)) (bs ++ data) := by
  have hsame : Envoy.step .quiet s (.decodeData data endStream) =
      Envoy.step .quiet s (.decodeData data false) := by
    simp only [Envoy.step, decodeData, h.state]
  rw [hsame]
  exact h.step (e := .decodeData data false) rfl (by simp)

/-- The parser starts on everything that was kept. -/
theorem Waiting.ready_at {s : Filter} {bs : Bytes} (h : Waiting s bs) :
    At (Envoy.step .quiet s .onReceiveInitialMetadata) (Reading.ofChunks [bs]) := by
  have hopen : Unclosed { s with state := .active } :=
    ⟨[], ⟨rfl, h.grpcStream, h.grpcCallbacks, h.fault, h.relayed⟩, List.not_mem_nil⟩
  rw [h.step_ready]
  split
  · have hrun := hopen.processWebSocketData bs false
    have hnext : (Reading.reading s.frameRemainder).next bs = Reading.ofChunks [bs] := by
      rw [h.remainder]
      rfl
    rw [Reading.finish_false, hnext] at hrun
    exact hrun
  · rename_i hpos
    obtain rfl : bs = [] := List.length_eq_zero_iff.mp (by omega)
    exact ⟨hopen, h.remainder⟩

section Order

variable {config : WsGrpcBridgeConfig} {headers : HeaderMap} {before after : List Event}

/-- A run in which the stream becomes ready before the client's stream ends. -/
theorem at_of_ready_first (hupgrade : isWebSocketUpgrade headers = true) (data : Bytes)
    (hbefore : ∀ e ∈ before, e.plain = true)
    (hafter : ∀ e ∈ after, e.plain = true ∧ e.chunk = none)
    (hready : .onReceiveInitialMetadata ∈ before) :
    At (run .quiet (opened config headers ⟨false, true⟩)
        (before ++ .decodeData data true :: after))
      ((Reading.ofChunks (chunks [] (before ++ .decodeData data true :: after))).finish true) := by
  obtain ⟨kept, given, rfl, hnot⟩ := List.eq_append_cons_of_mem hready
  obtain ⟨hkept, hrest⟩ := List.forall_mem_append.mp hbefore
  have hgiven := (List.forall_mem_cons.mp hrest).2
  have hplain : ∀ e ∈ after, e.plain = true := fun e he => (hafter e he).1
  have hquiet : after.filterMap Event.chunk = [] :=
    List.filterMap_eq_nil_iff.mpr fun e he => (hafter e he).2
  have hwait := (waiting_opened config hupgrade).run kept hkept hnot
  have hend := ((hwait.ready_at.run given hgiven).step_data data true).run after hplain
  have hdata : (Event.decodeData data true).chunk = some data := rfl
  have hchunks : chunks [] (kept ++ .onReceiveInitialMetadata :: given ++
      .decodeData data true :: after) =
        (received kept :: given.filterMap Event.chunk) ++ [data] := by
    rw [List.append_assoc, List.cons_append, chunks_append hnot, List.filterMap_append,
      List.filterMap_cons_some hdata, hquiet]
    rfl
  rw [hquiet, List.foldl_nil, List.nil_append] at hend
  rw [hchunks, Reading.ofChunks_concat]
  simpa only [run, List.foldl_append, List.foldl_cons, List.foldl_nil, Reading.ofChunks] using hend

/-- A run in which the client's stream ends before the stream becomes ready. -/
theorem at_of_end_first (hupgrade : isWebSocketUpgrade headers = true) (data : Bytes)
    (hbefore : ∀ e ∈ before, e.plain = true)
    (hafter : ∀ e ∈ after, e.plain = true ∧ e.chunk = none)
    (hnot : .onReceiveInitialMetadata ∉ before) (hready : .onReceiveInitialMetadata ∈ after) :
    At (run .quiet (opened config headers ⟨false, true⟩)
        (before ++ .decodeData data true :: after))
      (Reading.ofChunks (chunks [] (before ++ .decodeData data true :: after))) := by
  obtain ⟨kept, given, rfl, hkeptNot⟩ := List.eq_append_cons_of_mem hready
  obtain ⟨hkept, hrest⟩ := List.forall_mem_append.mp hafter
  have hgiven := (List.forall_mem_cons.mp hrest).2
  have hquiet : given.filterMap Event.chunk = [] :=
    List.filterMap_eq_nil_iff.mpr fun e he => (hgiven e he).2
  have hwait := ((waiting_opened config hupgrade).run before hbefore hnot).step_data data true
  have hend := (hwait.run kept (fun e he => (hkept e he).1) hkeptNot).ready_at.run given
    (fun e he => (hgiven e he).1)
  have hfirst : .onReceiveInitialMetadata ∉ before ++ .decodeData data true :: kept := by
    intro hmem
    obtain hmem | hmem := List.mem_append.mp hmem
    · exact hnot hmem
    · exact hkeptNot (List.mem_of_ne_of_mem (by simp) hmem)
  have hreceived : received (before ++ .decodeData data true :: kept) =
      received before ++ data ++ received kept := by
    simp [received, Event.bytes]
  have hchunks : chunks [] (before ++ .decodeData data true ::
      (kept ++ .onReceiveInitialMetadata :: given)) =
        [[] ++ received before ++ data ++ received kept] := by
    have hsplit : before ++ .decodeData data true :: (kept ++ .onReceiveInitialMetadata :: given) =
        (before ++ .decodeData data true :: kept) ++ .onReceiveInitialMetadata :: given := by
      simp
    rw [hsplit, chunks_append hfirst, hquiet, hreceived]
    simp
  rw [hquiet, List.foldl_nil] at hend
  rw [hchunks]
  simpa only [run, List.foldl_append, List.foldl_cons] using hend

end Order

/-- For every interleaving of the callbacks: once the end of the client's stream
and the initial metadata have come, the request side has been half closed exactly
once if and only if the parser has met a Close frame, or it has not thrown and the
end of the stream came after the initial metadata. -/
theorem end_stream_closes_iff (config : WsGrpcBridgeConfig) {headers : HeaderMap}
    (hupgrade : isWebSocketUpgrade headers = true) (before : List Event) (data : Bytes)
    (after : List Event) (hbefore : ∀ e ∈ before, e.plain = true)
    (hafter : ∀ e ∈ after, e.plain = true ∧ e.chunk = none)
    (hready : .onReceiveInitialMetadata ∈ before ∨ .onReceiveInitialMetadata ∈ after) :
    let parsed := Reading.ofChunks (chunks [] (before ++ .decodeData data true :: after))
    (run .quiet (opened config headers ⟨false, true⟩)
        (before ++ .decodeData data true :: after)).trace.count .closeStream = 1 ↔
      parsed = .closed ∨ .onReceiveInitialMetadata ∈ before ∧ ∃ rest, parsed = .reading rest := by
  intro parsed
  by_cases hfirst : .onReceiveInitialMetadata ∈ before
  · rw [(at_of_ready_first hupgrade data hbefore hafter hfirst).count, Reading.finish_eq_closed]
    simp only [parsed, hfirst, true_and]
  · have hlater := hready.resolve_left hfirst
    rw [(at_of_end_first hupgrade data hbefore hafter hfirst hlater).count]
    simp only [parsed, hfirst, false_and, or_false]

/-- The end of the stream after the initial metadata, in a call that ends inside a
frame. -/
theorem end_stream_closes_iff_cut :
    (run .quiet
      (opened ⟨"ws".toList, []⟩ [("upgrade".toList, "websocket".toList)] ⟨false, true⟩)
      [.decodeData [0x81] false, .onReceiveInitialMetadata, .decodeData [0x02, 0x48, 0x69, 0x89]
        true, .encodeHeaders]).trace.count .closeStream = 1 :=
  (end_stream_closes_iff ⟨"ws".toList, []⟩ 
    (show isWebSocketUpgrade [("upgrade".toList, "websocket".toList)] = true by decide)
    [.decodeData [0x81] false, .onReceiveInitialMetadata] [0x02, 0x48, 0x69, 0x89]
    [.encodeHeaders] (by decide) (by decide) (by decide)).mpr (.inr ⟨by decide, [0x89], by decide⟩)

/-- The end of the stream before the initial metadata is forgotten: the request
side stays open. -/
theorem early_end_forgotten :
    let s := run .quiet
      (opened ⟨"ws".toList, []⟩ [("upgrade".toList, "websocket".toList)] ⟨false, true⟩)
      [.decodeData [0x81, 0x01, 0x48] true, .onReceiveInitialMetadata]
    s.trace.filter Effect.relayed =
        [.sendMessage { payload := [0x48], binary := false } false] ∧
      s.state = .active ∧ s.trace.count .closeStream = 0 := by
  decide

end Grpcgi.Envoy
