import Grpcgi.Envoy.Relay

/-!
# The relay under every Envoy

Here Envoy may close the stream from inside any call that the filter makes, the stream
may fail to start, and the callbacks that end it come at any time. What is relayed is
then still a beginning of what the client's stream calls for, each frame once and in
its place. While the filter is active it is all of it.

A call during which Envoy closes the stream is the quiet call followed by
`onRemoteClose` (`dispatch_cases`), so that the loop does no more than the quiet one.
-/

namespace Grpcgi.Envoy

open WebSocket (Frame encodeAll)
open Incremental (Decoder Exit)

/-- What the filter has relayed. -/
def relayedBy (s : Filter) : List Effect := s.trace.filter Effect.relayed

/-- The filter hands no more frames on. -/
def Over (s : Filter) : Prop := s.fault.isSome ∨ s.state = .closing ∨ s.state = .closed

/-- No call of the parser meets its 32-bit clamp: what waits for the initial metadata is
shorter than 2^32 bytes, and so is every chunk with what is kept of a cut-off frame. -/
structure Counted (events : List Event) : Prop where
  waiting : (received (events.takeWhile (· ≠ .onReceiveInitialMetadata))).length ≤ uint32Max
  chunks : WithinClamp [] (events.map Event.bytes)

/-- A short enough stream is counted. -/
theorem counted_of_length {events : List Event} (h : (received events).length ≤ uint32Max) :
    Counted events := by
  constructor
  · obtain ⟨more, hmore⟩ := List.takeWhile_prefix (l := events)
      (fun e => decide (e ≠ .onReceiveInitialMetadata))
    have hlength := congrArg (fun es => (received es).length) hmore
    simp only [received, List.flatMap_append, List.length_append] at hlength h ⊢
    omega
  · exact withinClamp_of_length (by simpa [received, List.flatMap_def] using h)

/-- The client's stream comes to its end. -/
def Event.Ends (e : Event) : Prop := ∃ data, e = .decodeData data true

/-! ## Calls that Envoy interrupts -/

section Calls

variable (env : Env) (s : Filter)

@[simp] theorem relayedBy_onRemoteClose : relayedBy (onRemoteClose s) = relayedBy s := by
  by_cases h : s.state = .closed
  · rw [onRemoteClose_closed h]
  · rw [onRemoteClose_open h]
    simp only [relayedBy, List.filter_append]
    rw [List.filter_cons_of_neg (by decide), List.filter_cons_of_neg (by decide),
      List.filter_nil, List.append_nil, List.append_nil]

theorem state_onRemoteClose : (onRemoteClose s).state = .closed := by
  by_cases h : s.state = .closed
  · rw [onRemoteClose_closed h]
    exact h
  · rw [onRemoteClose_open h]

theorem relayedBy_emit {e : Effect} (h : e.relayed = false) :
    relayedBy (s.emit e) = relayedBy s := by
  simp [relayedBy, h]

theorem relayedBy_call {e : Effect} (h : e.relayed = false) :
    relayedBy (s.call env e) = relayedBy s := by
  obtain hcall | hcall := call_cases e s env <;> rw [hcall]
  · exact relayedBy_emit s h
  · rw [relayedBy_onRemoteClose, relayedBy_emit s h]

theorem state_call (e : Effect) :
    (s.call env e).state = s.state ∨ (s.call env e).state = .closed := by
  obtain hcall | hcall := call_cases e s env <;> rw [hcall]
  · exact .inl rfl
  · exact .inr (state_onRemoteClose _)

/-- A half close is the quiet one, perhaps with a remote close after it. -/
theorem closeGrpcStream_cases : closeGrpcStream env s = closeGrpcStream .quiet s ∨
    closeGrpcStream env s = onRemoteClose (closeGrpcStream .quiet s) := by
  simp only [closeGrpcStream]
  split
  · exact .inl rfl
  · split
    · rw [call_quiet]
      exact call_cases _ _ env
    · exact .inl rfl

/-- A frame is handled as in quiet, perhaps with a remote close after it. -/
theorem dispatch_cases (frame : WsFrame) : dispatch env s frame = dispatch .quiet s frame ∨
    dispatch env s frame = (onRemoteClose (dispatch .quiet s frame).1, false) := by
  have hstop (t : Filter) : ((onRemoteClose t).state == .active) = false := by
    rw [state_onRemoteClose]
    rfl
  simp only [dispatch]
  split
  · simp only [forwardDataFrame]
    split
    · exact .inl rfl
    · split
      · exact .inl rfl
      · rw [call_quiet]
        obtain hcall | hcall := call_cases (.sendMessage
          { payload := frame.payload, binary := frame.opcode == kOpcodeBinary } false) s env
        · rw [hcall]
          exact .inl rfl
        · rw [hcall, hstop, Bool.and_false]
          exact .inr rfl
  · split
    · rw [call_quiet]
      obtain hcall | hcall := call_cases
        (.addEncodedData (encodeFrame kOpcodePong frame.payload) false) s env
      · rw [hcall]
        exact .inl rfl
      · rw [hcall, hstop]
        exact .inr rfl
    · split
      · exact .inl rfl
      · split
        · obtain hclose | hclose := closeGrpcStream_cases env s
          · rw [hclose]
            exact .inl rfl
          · rw [hclose]
            exact .inr rfl
        · exact .inl rfl

end Calls

/-! ## The loop -/

/-- The filter has stopped at or before the effects of the ideal relay. -/
def Stopped (s : Filter) (effects : List Effect) : Prop := Over s ∧ relayedBy s <+: effects

theorem HalfClosed.stopped {s : Filter} {effects : List Effect} (h : HalfClosed [] s effects) :
    Stopped s effects := by
  refine ⟨.inr (.inl h.state), ?_⟩
  rw [relayedBy, h.relayed]
  exact List.prefix_rfl

theorem relayStep_grows (effects : List Effect) (frame : WsFrame) :
    effects <+: (relayStep effects frame).1 := List.prefix_append _ _

/-- One frame under any Envoy, against the ideal relay. -/
theorem Live.dispatch_any {s : Filter} {effects : List Effect} (h : Live [] s effects) (env : Env)
    (frame : WsFrame) :
    ((Envoy.dispatch env s frame).2 = true → (relayStep effects frame).2 = true ∧
      Live [] (Envoy.dispatch env s frame).1 (relayStep effects frame).1) ∧
    ((Envoy.dispatch env s frame).2 = false →
      Stopped (Envoy.dispatch env s frame).1 (relayStep effects frame).1) := by
  obtain ⟨s', effects', go, hquiet, hideal, hrun, hstop⟩ := h.dispatch frame
  rw [hideal]
  obtain hd | hd := dispatch_cases env s frame
  · rw [hd, hquiet]
    refine ⟨fun hgo => ⟨hgo, hrun hgo⟩, fun hgo => (hstop hgo).stopped⟩
  · rw [hd, hquiet]
    refine ⟨by simp, fun _ => ⟨.inr (.inr (state_onRemoteClose s')), ?_⟩⟩
    rw [relayedBy_onRemoteClose, relayedBy]
    cases go with
    | true =>
        rw [(hrun rfl).relayed]
        exact List.prefix_rfl
    | false =>
        rw [(hstop rfl).relayed]
        exact List.prefix_rfl

theorem Live.scan_any {s : Filter} {effects : List Effect} (h : Live [] s effects) (env : Env)
    (raw : Bytes) :
    Decoder.Ahead (Live []) Stopped (frameDecoder.scan (Envoy.dispatch env) s raw)
      (frameDecoder.scan relayStep effects raw) := by
  apply Decoder.scan_ahead frameDecoder
  · intro t es frame ht
    exact ht.dispatch_any env frame
  · intro t es frame ht
    exact ⟨ht.1, ht.2.trans (relayStep_grows es frame)⟩
  · exact h

/-- The half close at the end of the client's stream. -/
theorem Live.closeGrpcStream_any {s : Filter} {effects : List Effect} (h : Live [] s effects)
    (env : Env) : Over (Envoy.closeGrpcStream env s) ∧
      relayedBy (Envoy.closeGrpcStream env s) = effects ++ [.closeStream] := by
  have hquiet := h.closeGrpcStream
  have hrelayed : relayedBy (Envoy.closeGrpcStream .quiet s) = effects ++ [.closeStream] :=
    hquiet.relayed
  obtain hclose | hclose := closeGrpcStream_cases env s <;> rw [hclose]
  · exact ⟨.inr (.inl hquiet.state), hrelayed⟩
  · exact ⟨.inr (.inr (state_onRemoteClose _)), (relayedBy_onRemoteClose _).trans hrelayed⟩

/-! ## Runs -/

/-- Where a filter stands that has received these bytes. The propositions say whether the
client's stream has ended and whether the initial metadata has come. -/
inductive Stage (s : Filter) (bs : Bytes) (ended ready : Prop) : Prop where
  | waiting (hwaits : ¬ ready) (hwaiting : Waiting s bs)
  | reading (effects : List Effect) (hlive : Live [] s effects)
      (hscan : frameDecoder.scan relayStep [] bs = (effects, .rest s.frameRemainder))
  | finished (hover : Over s) (effects : List Effect)
      (heffects : effects <+: (frameDecoder.scan relayStep [] bs).1)
      (hrelayed : relayedBy s = effects ∨ ended ∧ relayedBy s = effects ++ [.closeStream])

/-- More bytes add effects at the end. -/
theorem relay_mono (bs more : Bytes) : (frameDecoder.scan relayStep [] bs).1 <+:
    (frameDecoder.scan relayStep [] (bs ++ more)).1 := by
  rw [Decoder.scan_append]
  rcases frameDecoder.scan relayStep [] bs with ⟨effects, r | r | ⟨e, r⟩⟩
  · have hgrows := Decoder.scan_settled frameDecoder relayStep (P := (effects <+: ·))
      (Q := (effects <+: ·)) (fun es frame hes => ⟨fun _ => hes.trans (relayStep_grows es frame),
        fun _ => hes.trans (relayStep_grows es frame)⟩) List.prefix_rfl (r ++ more)
    rw [Decoder.resume]
    generalize frameDecoder.scan relayStep effects (r ++ more) = result at hgrows ⊢
    cases hgrows with
    | rest h => exact h
    | stopped h => exact h
    | fault h _ => exact h
  · exact List.prefix_rfl
  · exact List.prefix_rfl

namespace Stage

variable {env : Env} {s : Filter} {bs : Bytes} {ended ready : Prop}

/-- One call of the parser. -/
theorem processWebSocketData {effects : List Effect} (hlive : Live [] s effects)
    (hscan : frameDecoder.scan relayStep [] bs = (effects, .rest s.frameRemainder)) (buf : Bytes)
    (endStream : Bool) (hclamp : (s.frameRemainder ++ buf).length ≤ uint32Max)
    (hended : endStream = true → ended) :
    Stage (Envoy.processWebSocketData env buf endStream s) (bs ++ buf) ended ready := by
  have hideal : frameDecoder.scan relayStep [] (bs ++ buf) =
      frameDecoder.scan relayStep effects (s.frameRemainder ++ buf) := by
    rw [Decoder.scan_append, hscan, Decoder.resume]
  have hloop := (hlive.carry []).scan_any env (s.frameRemainder ++ buf)
  rw [processWebSocketData_eq env buf endStream hlive.state, List.take_of_length_le hclamp]
  generalize hreal : frameDecoder.scan (dispatch env) _ _ = real at hloop ⊢
  generalize hresult : frameDecoder.scan relayStep effects _ = result at hloop hideal
  cases hloop with
  | @rest t es r hrest =>
      have hkept := hrest.carry r
      simp only [leave, closeAtEnd]
      split
      · rename_i hend
        obtain ⟨hover, hrelayed⟩ := hkept.closeGrpcStream_any env
        refine .finished hover es ?_ (.inr ⟨hended (Bool.and_eq_true _ _ ▸ hend).1, hrelayed⟩)
        exact hideal ▸ List.prefix_rfl
      · exact .reading es hkept hideal
  | @stopped t es r exit hstop =>
      simp only [leave, closeAtEnd]
      refine .finished hstop.1 (relayedBy t) ?_ (.inl rfl)
      rw [hideal]
      exact hstop.2
  | @fault t es e r hrest =>
      simp only [leave, closeAtEnd]
      refine .finished (.inl rfl) es ?_ (.inl hrest.relayed)
      exact hideal ▸ List.prefix_rfl

theorem over_onDestroy (s : Filter) :
    Over (onDestroy s) ∧ relayedBy (onDestroy s) = relayedBy s := by
  refine ⟨.inr (.inr rfl), ?_⟩
  simp only [onDestroy]
  split <;> simp [relayedBy, Filter.emit, Effect.relayed]

/-- A filter that is over stays so, and relays nothing more. -/
theorem over_step (h : Over s) (env : Env) (e : Event) :
    Over (step env s e) ∧ relayedBy (step env s e) = relayedBy s := by
  simp only [Envoy.step]
  split
  · exact ⟨h, rfl⟩
  · rename_i hfault
    have hstate : s.state = .closing ∨ s.state = .closed := h.resolve_left hfault
    cases e with
    | decodeData data endStream =>
        obtain hs | hs := hstate <;> simp only [decodeData, hs] <;> exact ⟨h, trivial⟩
    | onReceiveInitialMetadata =>
        have hready : s.state ≠ .connecting := by
          obtain hs | hs := hstate <;> simp [hs]
        simp only [onReceiveInitialMetadata, if_pos hready, ite_self]
        exact ⟨h, trivial⟩
    | onReceiveMessage message =>
        simp only
        split
        · simp only [onReceiveMessage]
          split
          · exact ⟨h, rfl⟩
          · refine ⟨?_, relayedBy_call env s (relayed_message _ _ _)⟩
            obtain hcall | hcall := state_call env s (.addEncodedData
              (encodeFrame (if message.binary then kOpcodeBinary else kOpcodeText)
                message.payload) false)
            · exact .inr (hcall ▸ hstate)
            · exact .inr (.inr hcall)
        · exact ⟨h, rfl⟩
    | onRemoteClose =>
        simp only
        split
        · exact ⟨.inr (.inr (state_onRemoteClose s)), relayedBy_onRemoteClose s⟩
        · exact ⟨h, rfl⟩
    | encodeHeaders => exact ⟨h, relayedBy_emit s rfl⟩
    | onDestroy => exact over_onDestroy s

/-- The end of the filter, from any stage. -/
theorem of_over (h : Stage s bs ended ready) {t : Filter} (hover : Over t)
    (hrelayed : relayedBy t = relayedBy s) (more : Bytes) {ended' ready' : Prop}
    (hended : ended → ended') : Stage t (bs ++ more) ended' ready' := by
  have hmono := relay_mono bs more
  cases h with
  | waiting _ hwaiting =>
      exact .finished hover [] List.nil_prefix (.inl (hrelayed.trans hwaiting.relayed))
  | reading effects hlive hscan =>
      rw [hscan] at hmono
      exact .finished hover effects hmono (.inl (hrelayed.trans hlive.relayed))
  | finished _ effects heffects hwas =>
      refine .finished hover effects (heffects.trans hmono) ?_
      rw [hrelayed]
      exact hwas.imp id fun ⟨he, heq⟩ => ⟨hended he, heq⟩

/-- The initial metadata hands on what has waited. -/
theorem ready_waiting (h : Waiting s bs) (hlength : bs.length ≤ uint32Max) :
    Stage (onReceiveInitialMetadata env s) bs ended ready := by
  have hactive : Live [] { s with state := .active } [] :=
    ⟨rfl, h.grpcStream, h.grpcCallbacks, h.fault, h.relayed⟩
  have hempty : frameDecoder.scan relayStep [] [] = ([], .rest s.frameRemainder) := by
    rw [h.remainder]
    exact Decoder.scan_nil _
  have hnext : Stage (Envoy.processWebSocketData env bs false { s with state := .active })
      ([] ++ bs) ended ready :=
    processWebSocketData hactive hempty bs false (by simpa [h.remainder] using hlength) (by simp)
  have hready : onReceiveInitialMetadata env s =
      if 0 < bs.length then
        Envoy.processWebSocketData env bs false { s with state := .active }
      else { s with state := .active } := by
    simp only [onReceiveInitialMetadata, if_neg (not_not.mpr h.state), h.pending]
  rw [hready]
  split
  · exact hnext
  · rename_i hpos
    obtain rfl : bs = [] := List.length_eq_zero_iff.mp (by omega)
    exact .reading [] hactive hempty

/-- One callback while the filter waits for the stream. -/
theorem step_waiting (hwaits : ¬ ready) (h : Waiting s bs) (env : Env) (e : Event)
    (hlength : e = .onReceiveInitialMetadata → bs.length ≤ uint32Max) :
    Stage (Envoy.step env s e) (bs ++ e.bytes) (ended ∨ e.Ends)
      (ready ∨ e = .onReceiveInitialMetadata) := by
  have hstage : Stage s bs ended ready := .waiting hwaits h
  have hstill (he : e ≠ .onReceiveInitialMetadata) :
      ¬ (ready ∨ e = .onReceiveInitialMetadata) := not_or.mpr ⟨hwaits, he⟩
  simp only [Envoy.step]
  rw [if_neg (by simp [h.fault])]
  cases e with
  | decodeData data endStream =>
      simp only [decodeData, h.state]
      exact .waiting (hstill (by simp)) ⟨rfl, h.grpcStream, h.grpcCallbacks, h.fault,
        congrArg (· ++ data) h.pending, h.remainder, h.relayed⟩
  | onReceiveInitialMetadata =>
      simp only [if_pos h.grpcCallbacks, Event.bytes, List.append_nil]
      exact ready_waiting h (hlength rfl)
  | onReceiveMessage message =>
      have hignored : onReceiveMessage env message s = s := by
        simp [onReceiveMessage, h.state]
      simp only [if_pos h.grpcCallbacks, hignored, Event.bytes, List.append_nil]
      exact .waiting (hstill (by simp)) h
  | onRemoteClose =>
      simp only [if_pos h.grpcCallbacks]
      exact hstage.of_over (.inr (.inr (state_onRemoteClose s))) (relayedBy_onRemoteClose s) _
        .inl
  | encodeHeaders =>
      simp only [Event.bytes, List.append_nil]
      exact .waiting (hstill (by simp)) ⟨h.state, h.grpcStream, h.grpcCallbacks, h.fault,
        h.pending, h.remainder, (relayedBy_emit s rfl).trans h.relayed⟩
  | onDestroy => exact hstage.of_over (over_onDestroy s).1 (over_onDestroy s).2 _ .inl

/-- One callback while frames are read. -/
theorem step_reading {effects : List Effect} (hlive : Live [] s effects)
    (hscan : frameDecoder.scan relayStep [] bs = (effects, .rest s.frameRemainder)) (env : Env)
    (e : Event) (hclamp : (s.frameRemainder ++ e.bytes).length ≤ uint32Max) :
    Stage (Envoy.step env s e) (bs ++ e.bytes) (ended ∨ e.Ends)
      (ready ∨ e = .onReceiveInitialMetadata) := by
  have hstage : Stage s bs ended ready := .reading effects hlive hscan
  -- all callbacks but `decodeData` leave the bytes alone
  have hnone (t : Filter) (hlive : Live [] t effects)
      (hscan : frameDecoder.scan relayStep [] bs = (effects, .rest t.frameRemainder)) :
      Stage t (bs ++ []) (ended ∨ e.Ends) (ready ∨ e = .onReceiveInitialMetadata) := by
    rw [List.append_nil]
    exact .reading effects hlive hscan
  simp only [Envoy.step]
  rw [if_neg (by simp [hlive.fault])]
  cases e with
  | decodeData data endStream =>
      simp only [decodeData, hlive.state]
      exact processWebSocketData hlive hscan data endStream hclamp
        fun hend => .inr ⟨data, hend ▸ rfl⟩
  | onReceiveInitialMetadata =>
      have hignored : onReceiveInitialMetadata env s = s := by
        simp [onReceiveInitialMetadata, hlive.state]
      rw [if_pos hlive.grpcCallbacks, hignored]
      exact hnone s hlive hscan
  | onReceiveMessage message =>
      have hopen : ¬ (s.state ≠ .active ∧ s.state ≠ .closing) := by simp [hlive.state]
      simp only [if_pos hlive.grpcCallbacks, onReceiveMessage, if_neg hopen]
      have hrelayed := relayed_message message.payload message.binary false
      generalize Effect.addEncodedData _ _ = c at hrelayed ⊢
      obtain hcall | hcall := call_cases c s env <;> rw [hcall]
      · have hemit := hlive.emit c
        rw [List.filter_cons_of_neg (by simp [hrelayed]), List.filter_nil,
          List.append_nil] at hemit
        exact hnone _ hemit hscan
      · refine hstage.of_over (.inr (.inr (state_onRemoteClose _))) ?_ _ .inl
        rw [relayedBy_onRemoteClose, relayedBy_emit s hrelayed]
  | onRemoteClose =>
      simp only [if_pos hlive.grpcCallbacks]
      exact hstage.of_over (.inr (.inr (state_onRemoteClose s))) (relayedBy_onRemoteClose s) _
        .inl
  | encodeHeaders =>
      have hemit := hlive.emit .encodedHeaders
      rw [List.filter_cons_of_neg (by decide), List.filter_nil, List.append_nil] at hemit
      exact hnone _ hemit hscan
  | onDestroy => exact hstage.of_over (over_onDestroy s).1 (over_onDestroy s).2 _ .inl

theorem step (h : Stage s bs ended ready) (env : Env) (e : Event)
    (hlength : ¬ ready → e = .onReceiveInitialMetadata → bs.length ≤ uint32Max)
    (hclamp : (carried bs ++ e.bytes).length ≤ uint32Max) :
    Stage (Envoy.step env s e) (bs ++ e.bytes) (ended ∨ e.Ends)
      (ready ∨ e = .onReceiveInitialMetadata) := by
  cases h with
  | waiting hwaits hwaiting => exact step_waiting hwaits hwaiting env e (hlength hwaits)
  | reading effects hlive hscan =>
      rw [carried, hscan] at hclamp
      exact step_reading hlive hscan env e hclamp
  | finished hover effects heffects hrelayed =>
      obtain ⟨hstill, hsame⟩ := over_step hover env e
      have hstage : Stage s bs ended ready := .finished hover effects heffects hrelayed
      exact hstage.of_over hstill hsame _ .inl

theorem run (h : Stage s bs ended ready) (env : Env) (events : List Event)
    (hwaiting : ¬ ready →
      (bs ++ received (events.takeWhile (· ≠ .onReceiveInitialMetadata))).length ≤ uint32Max)
    (hclamp : WithinClamp bs (events.map Event.bytes)) :
    Stage (Envoy.run env s events) (bs ++ received events) (ended ∨ ∃ e ∈ events, e.Ends)
      (ready ∨ .onReceiveInitialMetadata ∈ events) := by
  induction events generalizing s bs ended ready with
  | nil => simpa [Envoy.run, received] using h
  | cons e events ih =>
      have hnext := h.step env e (fun hwaits he => by
        have hlength := hwaiting hwaits
        simp only [he, List.takeWhile_cons, ne_eq, not_true_eq_false, decide_false,
          Bool.false_eq_true, if_false, received, List.flatMap_nil, List.append_nil] at hlength
        exact hlength) hclamp.1
      have hrest := ih hnext (fun hwaits => by
        obtain ⟨hwaits, he⟩ := not_or.mp hwaits
        have hlength := hwaiting hwaits
        rw [List.takeWhile_cons_of_pos (by simpa using he)] at hlength
        simpa only [received, List.flatMap_cons, List.append_assoc] using hlength) hclamp.2
      simp only [received, List.flatMap_cons, List.mem_cons, exists_eq_or_imp, ← or_assoc,
        ← List.append_assoc, eq_comm (a := Event.onReceiveInitialMetadata)]
      exact hrest

end Stage

/-- The filter after an upgrade request, however the start of the stream went. -/
theorem stage_opened (config : WsGrpcBridgeConfig) {headers : HeaderMap}
    (hupgrade : isWebSocketUpgrade headers = true) (outcome : StartOutcome) :
    Stage (opened config headers outcome) [] False False := by
  obtain ⟨remoteClose, stream⟩ := outcome
  cases remoteClose with
  | false =>
      cases stream with
      | true => exact .waiting id (waiting_opened config hupgrade)
      | false =>
          simp only [opened, decodeHeaders, hupgrade, if_true, startGrpcStream]
          exact .finished (.inr (.inr rfl)) [] List.nil_prefix (.inl rfl)
  | true =>
      refine .finished (.inr (.inr ?_)) [] List.nil_prefix (.inl ?_)
      · simp only [opened, decodeHeaders, hupgrade, if_true, startGrpcStream, Bool.false_eq_true,
          if_false]
        cases stream <;> simp [state_onRemoteClose]
      · simp only [opened, decodeHeaders, hupgrade, if_true, startGrpcStream, Bool.false_eq_true,
          if_false]
        rw [onRemoteClose_open (by simp)]
        cases stream <;> rfl

/-- Whatever Envoy does and whenever the stream ends, what is relayed is a beginning of
what the client's frames call for, and all of it while the filter is active. Only the
end of the client's stream may add a half close. -/
theorem relayed_in_order (env : Env) (config : WsGrpcBridgeConfig) {headers : HeaderMap}
    (hupgrade : isWebSocketUpgrade headers = true) (outcome : StartOutcome) (frames : List Frame)
    (tail : Bytes) (htail : WebSocket.Partial tail) {events : List Event}
    (hreceived : received events = encodeAll frames ++ tail) (hcounted : Counted events) :
    let s := run env (opened config headers outcome) events
    (∃ effects, effects <+: streamEffects frames ∧
      (relayedBy s = effects ∨
        (∃ e ∈ events, e.Ends) ∧ relayedBy s = effects ++ [.closeStream])) ∧
    (s.state = .active → s.fault = none → relayedBy s = streamEffects frames) := by
  intro s
  have hstage : Stage s ([] ++ received events) (False ∨ ∃ e ∈ events, e.Ends)
      (False ∨ .onReceiveInitialMetadata ∈ events) :=
    (stage_opened config hupgrade outcome).run env events (fun _ => hcounted.waiting)
      hcounted.chunks
  rw [List.nil_append, hreceived] at hstage
  obtain ⟨hideal, -⟩ := scan_frames frames htail
  cases hstage with
  | waiting _ hwaiting =>
      refine ⟨⟨[], List.nil_prefix, .inl hwaiting.relayed⟩, fun hactive => ?_⟩
      rw [hwaiting.state] at hactive
      cases hactive
  | reading effects hlive hscan =>
      have hall : relayedBy s = streamEffects frames := by
        rw [hscan] at hideal
        exact hlive.relayed.trans hideal
      exact ⟨⟨streamEffects frames, List.prefix_rfl, .inl hall⟩, fun _ _ => hall⟩
  | finished hover effects heffects hrelayed =>
      rw [hideal] at heffects
      refine ⟨⟨effects, heffects, ?_⟩, ?_⟩
      · exact hrelayed.imp id fun ⟨hended, heq⟩ => ⟨hended.resolve_left id, heq⟩
      · intro hactive hfault
        obtain hover | hover | hover := hover
        · rw [hfault] at hover
          cases hover
        · rw [hover] at hactive
          cases hactive
        · rw [hover] at hactive
          cases hactive

/-- Envoy closes the stream from inside the first message, so that the Ping in the same
chunk is not answered. -/
theorem relayed_in_order_closed :
    let s := run ⟨fun trace => trace.length = 2⟩
      (opened ⟨"ws".toList, []⟩ [("upgrade".toList, "websocket".toList)] ⟨false, true⟩)
      [.decodeData [0x81, 0x02, 0x48] false, .onReceiveInitialMetadata,
        .decodeData [0x69, 0x89, 0x00, 0x82] true]
    s.state = .closed ∧ ∃ effects,
      effects <+: [.sendMessage ⟨[0x48, 0x69], false⟩ false, .addEncodedData [0x8A, 0x00] false] ∧
      (relayedBy s = effects ∨ (∃ e ∈ [Event.decodeData [0x81, 0x02, 0x48] false,
          .onReceiveInitialMetadata, .decodeData [0x69, 0x89, 0x00, 0x82] true], e.Ends) ∧
        relayedBy s = effects ++ [.closeStream]) :=
  ⟨by decide, (relayed_in_order _ _ (by decide) _
    [⟨true, 0, 1, none, .short, [0x48, 0x69], by decide⟩, ⟨true, 0, 9, none, .short, [], by decide⟩]
    [0x82] ⟨⟨true, 0, 2, none, .short, [], by decide⟩, by decide, by decide⟩ (by decide)
    (counted_of_length (by decide))).1⟩

end Grpcgi.Envoy
