import Grpcgi.Envoy.EndOfStream
import Grpcgi.Envoy.Reentry

/-!
# Where the filter stands

The callbacks of a stream that started, in any order, under an Envoy that does not
interrupt. Until `onDestroy` there are four phases: the filter waits for the stream, it
follows the ideal relay, it has met the end of the client's stream, or the stream is
closed. It throws in none of them if the client sends whole frames, and what it has sent
can be read off.
-/

namespace Grpcgi.Envoy

open WebSocket (Frame encodeAll)
open Incremental (Decoder)

/-- What the ideal relay makes of these bytes. -/
def relay (bs : Bytes) : List Effect := (frameDecoder.scan relayStep [] bs).1

/-- The parser finds nothing to throw at. -/
def Readable (bs : Bytes) : Prop :=
  bs.length ≤ uint32Max ∧ ∀ t f r, frameDecoder.scan relayStep [] bs ≠ (t, .fault f r)

theorem Readable.of_append {bs more : Bytes} (h : Readable (bs ++ more)) : Readable bs := by
  obtain ⟨hlength, hfault⟩ := h
  rw [List.length_append] at hlength
  exact ⟨by omega, Decoder.scan_prefix_no_fault hfault⟩

theorem readable_frames {frames : List Frame} {tail : Bytes} (htail : WebSocket.Partial tail)
    (hlength : (encodeAll frames ++ tail).length < 2 ^ 32) : Readable (encodeAll frames ++ tail) :=
  ⟨Nat.le_sub_one_of_lt hlength, (scan_frames frames htail).2⟩

/-- The half close is the last effect of the ideal relay. -/
theorem relay_closes (bs : Bytes) : Decoder.Settled frameDecoder (fun es => .closeStream ∉ es)
    (fun es => ∃ before, es = before ++ [.closeStream] ∧ .closeStream ∉ before)
    (frameDecoder.scan relayStep [] bs) := by
  apply Decoder.scan_settled
  · intro es frame hes
    have hstop : (relayStep es frame).2 = true ↔ frame.opcode ≠ kOpcodeClose := by simp [relayStep]
    constructor
    · intro hgo hmem
      obtain hmem | hmem := List.mem_append.mp hmem
      · exact hes hmem
      · simp only [frameEffects, if_neg (hstop.mp hgo)] at hmem
        split_ifs at hmem <;> simp at hmem
    · intro hgo
      have hopcode : frame.opcode = kOpcodeClose := by
        by_contra hne
        rw [hstop.mpr hne] at hgo
        cases hgo
      refine ⟨es, ?_, hes⟩
      simp [relayStep, frameEffects, hopcode, kOpcodeClose, kOpcodeText, kOpcodeBinary,
        kOpcodePing]
  · exact List.not_mem_nil

/-- A beginning with the half close is all of it. -/
theorem relay_eq_of_closed {bs : Bytes} {effects : List Effect} (h : effects <+: relay bs)
    (hclosed : .closeStream ∈ effects) : effects = relay bs := by
  have hcloses := relay_closes bs
  have hrelay : relay bs = (frameDecoder.scan relayStep [] bs).1 := rfl
  rcases hscan : frameDecoder.scan relayStep [] bs with ⟨es, r | r | ⟨f, r⟩⟩ <;>
    rw [hscan] at hcloses hrelay <;> rw [hrelay] at h ⊢ <;> cases hcloses
  · rename_i hnone
    exact absurd (h.subset hclosed) hnone
  · rename_i hlast
    obtain ⟨before, rfl, hnone⟩ := hlast
    obtain heq | h := List.prefix_concat_iff.mp h
    · exact heq
    · exact absurd (h.subset hclosed) hnone
  · rename_i hnone _
    exact absurd (h.subset hclosed) hnone

/-- The phase of a filter that has received these bytes. The three propositions say whether
the client's stream has ended, whether the stream from upstream has begun and whether it has
ended. -/
inductive Phase (s : Filter) (bs : Bytes) (ended ready remote : Prop) : Prop where
  | waiting (hwaits : ¬ ready) (hopen : ¬ remote) (h : Waiting s bs)
  | follows (hopen : ¬ remote) (h : Follows [] s (frameDecoder.scan relayStep [] bs))
  | atEnd (hopen : ¬ remote) (before : Bytes) (hbefore : before <+: bs) (hended : ended)
      (h : HalfClosed [] s (relay before ++ [.closeStream]))
  | closed (hremote : remote) (hstate : s.state = .closed) (hfault : s.fault = none)
      (effects : List Effect) (heffects : effects <+: relay bs)
      (hrelayed : relayedBy s = effects ∨ ended ∧ relayedBy s = effects ++ [.closeStream])

/-- Whether it stops within the frames or at the end of the stream. -/
theorem Live.processWebSocketData_end {s : Filter} {effects : List Effect}
    (h : Live [] s effects) (buf : Bytes) (hclamp : (s.frameRemainder ++ buf).length ≤ uint32Max)
    (hfault : ∀ t e r,
      frameDecoder.scan relayStep effects (s.frameRemainder ++ buf) ≠ (t, .fault e r)) :
    Envoy.processWebSocketData .quiet buf true s =
      Envoy.closeGrpcStream .quiet (Envoy.processWebSocketData .quiet buf false s) := by
  have hrel := Decoder.scan_related frameDecoder (R := Live []) (S := HalfClosed [])
    (fun _ _ a ha => ha.dispatch a) (h.carry []) (s.frameRemainder ++ buf)
  simp only [processWebSocketData_eq .quiet buf _ h.state, List.take_of_length_le hclamp]
  generalize frameDecoder.scan (Envoy.dispatch .quiet) _ _ = real at hrel ⊢
  generalize frameDecoder.scan relayStep effects (s.frameRemainder ++ buf) = ideal
    at hrel hfault
  cases hrel with
  | rest hlive => simp [leave, closeAtEnd, hlive.state]
  | stopped hstop => simp [leave, closeAtEnd, Envoy.closeGrpcStream, hstop.state]
  | fault _ => exact absurd rfl (hfault _ _ _)

namespace Phase

variable {s : Filter} {bs : Bytes} {ended ready remote : Prop}

theorem fault (h : Phase s bs ended ready remote) : s.fault = none := by
  cases h with
  | waiting _ _ h => exact h.fault
  | follows _ h => exact h.fault
  | atEnd _ _ _ _ h => exact h.fault
  | closed _ _ hfault _ _ _ => exact hfault

theorem grpcCallbacks (h : Phase s bs ended ready remote) (hstate : s.state ≠ .closed) :
    s.grpcCallbacks = true := by
  cases h with
  | waiting _ _ h => exact h.grpcCallbacks
  | follows _ h => exact h.grpcCallbacks
  | atEnd _ _ _ _ h => exact h.grpcCallbacks
  | closed _ hclosed _ _ _ _ => exact absurd hclosed hstate

theorem closed_iff (h : Phase s bs ended ready remote) : s.state = .closed ↔ remote := by
  cases h with
  | waiting _ hopen h => simp [h.state, hopen]
  | follows hopen h => obtain hs | hs := h.open <;> simp [hs, hopen]
  | atEnd hopen _ _ _ h => simp [h.state, hopen]
  | closed hremote hstate _ _ _ _ => simp [hstate, hremote]

/-- The effects so far. -/
theorem relayed (h : Phase s bs ended ready remote) : ∃ effects, effects <+: relay bs ∧
    (relayedBy s = effects ∨ ended ∧ relayedBy s = effects ++ [.closeStream]) := by
  cases h with
  | waiting _ _ h => exact ⟨[], List.nil_prefix, .inl h.relayed⟩
  | follows _ h => exact ⟨relay bs, List.prefix_rfl, .inl h.relayed⟩
  | atEnd _ before hbefore hended h =>
      obtain ⟨more, rfl⟩ := hbefore
      exact ⟨relay before, relay_mono before more, .inr ⟨hended, h.relayed⟩⟩
  | closed _ _ _ effects heffects hrelayed => exact ⟨effects, heffects, hrelayed⟩

theorem mono (h : Phase s bs ended ready remote) {ended' : Prop} (himp : ended → ended') :
    Phase s bs ended' ready remote := by
  cases h with
  | waiting hwaits hopen h => exact .waiting hwaits hopen h
  | follows hopen h => exact .follows hopen h
  | atEnd hopen before hbefore hended h => exact .atEnd hopen before hbefore (himp hended) h
  | closed hremote hstate hfault effects heffects hrelayed =>
      exact .closed hremote hstate hfault effects heffects (hrelayed.imp id (And.imp himp id))

/-- What has been sent before a half close that the client's stream did not end with is
all. -/
theorem relayed_halfClosed (h : Phase s bs ended ready remote) (hclosed : .closeStream ∈ s.trace) :
    ended ∨ relayedBy s = relay bs := by
  obtain ⟨effects, heffects, heq | ⟨hended, -⟩⟩ := h.relayed
  · refine .inr (heq.trans (relay_eq_of_closed heffects ?_))
    rw [← heq]
    exact List.mem_filter.mpr ⟨hclosed, rfl⟩
  · exact .inl hended

/-- While the stream is there, everything has been sent. -/
theorem relayed_ready (h : Phase s bs ended ready remote) (hready : ready) (hopen : ¬ remote) :
    ended ∨ relayedBy s = relay bs := by
  cases h with
  | waiting hwaits _ h => exact absurd hready hwaits
  | follows _ h => exact .inr h.relayed
  | atEnd _ _ _ hended _ => exact .inl hended
  | closed hremote _ _ _ _ _ => exact absurd hremote hopen

/-! ## One callback -/

theorem remoteClose (h : Phase s bs ended ready remote) (hcallbacks : s.grpcCallbacks = true) :
    Phase (Envoy.step .quiet s .onRemoteClose) bs ended ready True := by
  have hstep : Envoy.step .quiet s .onRemoteClose = onRemoteClose s := by
    simp [Envoy.step, h.fault, hcallbacks]
  obtain ⟨effects, heffects, hrelayed⟩ := h.relayed
  rw [hstep]
  refine .closed trivial (state_onRemoteClose s) ?_ effects heffects ?_
  · by_cases hclosed : s.state = .closed
    · rw [onRemoteClose_closed hclosed]
      exact h.fault
    · rw [onRemoteClose_open hclosed]
      exact h.fault
  · rw [relayedBy_onRemoteClose]
    exact hrelayed

/-- The end of the client's stream, after its last bytes. -/
theorem atEnd_of_follows (hopen : ¬ remote) (hended : ended)
    (h : Follows [] s (frameDecoder.scan relayStep [] bs)) :
    Phase (closeGrpcStream .quiet s) bs ended ready remote := by
  have hrelay : relay bs = (frameDecoder.scan relayStep [] bs).1 := rfl
  rcases hscan : frameDecoder.scan relayStep [] bs with ⟨effects, r | r | ⟨f, r⟩⟩ <;>
    rw [hscan] at h hrelay
  · refine .atEnd hopen bs List.prefix_rfl hended ?_
    rw [hrelay]
    exact h.1.closeGrpcStream
  · have hsame : closeGrpcStream .quiet s = s := by
      simp [closeGrpcStream, h.state]
    rw [hsame]
    refine .follows hopen ?_
    rw [hscan]
    exact h
  · exact h.elim

/-- The end of the stream is the last bytes and then the half close. -/
theorem step_end (h : Follows [] s (frameDecoder.scan relayStep [] bs)) (data : Bytes)
    (hread : Readable (bs ++ data)) :
    Envoy.step .quiet s (.decodeData data true) =
      closeGrpcStream .quiet (Envoy.step .quiet s (.decodeData data false)) := by
  obtain ⟨hlength, hfault⟩ := hread
  have hcarried := carried_length bs
  simp only [Envoy.step, if_neg (show ¬ s.fault.isSome by simp [h.fault])]
  rw [Decoder.scan_append] at hfault
  rw [carried] at hcarried
  rcases hscan : frameDecoder.scan relayStep [] bs with ⟨effects, r | r | ⟨f, r⟩⟩ <;>
    rw [hscan] at h hfault hcarried
  · obtain ⟨hlive, rfl⟩ := h
    simp only [decodeData, hlive.state]
    rw [List.length_append] at hlength
    exact hlive.processWebSocketData_end data
      (by rw [List.length_append]; exact Nat.le_trans (Nat.add_le_add_right hcarried _) hlength)
      hfault
  · simp [decodeData, closeGrpcStream, h.state]
  · exact h.elim

/-- A filter that hands nothing on any more ignores the client and the stream's start. -/
theorem deaf (hfault : s.fault = none) (hstate : s.state = .closing ∨ s.state = .closed)
    {e : Event} (he : (∃ data endStream, e = .decodeData data endStream) ∨
      e = .onReceiveInitialMetadata) : Envoy.step .quiet s e = s := by
  simp only [Envoy.step, if_neg (show ¬ s.fault.isSome by simp [hfault])]
  obtain ⟨data, endStream, rfl⟩ | rfl := he
  · obtain hs | hs := hstate <;> simp [decodeData, hs]
  · obtain hs | hs := hstate <;> simp [onReceiveInitialMetadata, hs]

/-- A closed filter does nothing but note the response head. -/
theorem step_closed (hstate : s.state = .closed) (hfault : s.fault = none) {e : Event}
    (hkept : e ≠ .onDestroy) : Envoy.step .quiet s e = s ∨
      e = .encodeHeaders ∧ Envoy.step .quiet s e = s.emit .encodedHeaders := by
  cases e with
  | decodeData data endStream => exact .inl (deaf hfault (.inr hstate) (.inl ⟨_, _, rfl⟩))
  | onReceiveInitialMetadata => exact .inl (deaf hfault (.inr hstate) (.inr rfl))
  | onReceiveMessage message =>
      refine .inl ?_
      simp [Envoy.step, hfault, onReceiveMessage, hstate]
  | onRemoteClose =>
      refine .inl ?_
      simp [Envoy.step, hfault, onRemoteClose_closed hstate]
  | encodeHeaders =>
      refine .inr ⟨rfl, ?_⟩
      simp [Envoy.step, hfault]
  | onDestroy => exact absurd rfl hkept

/-- A call outside the client-to-upstream path. -/
theorem emit (h : Phase s bs ended ready remote) {e : Effect} (he : e.relayed = false) :
    Phase (s.emit e) bs ended ready remote := by
  cases h with
  | waiting hwaits hopen h =>
      exact .waiting hwaits hopen ⟨h.state, h.grpcStream, h.grpcCallbacks, h.fault, h.pending,
        h.remainder, (relayedBy_emit s he).trans h.relayed⟩
  | follows hopen h => exact .follows hopen (h.emit he)
  | atEnd hopen before hbefore hended h => exact .atEnd hopen before hbefore hended (h.emit he)
  | closed hremote hstate hfault effects heffects hrelayed =>
      refine .closed hremote hstate hfault effects heffects ?_
      rw [relayedBy_emit s he]
      exact hrelayed

/-- While the filter waits for the stream. -/
theorem step_waiting (hwaits : ¬ ready) (hopen : ¬ remote) (h : Waiting s bs) {e : Event}
    (hkept : e ≠ .onDestroy) (hclose : e ≠ .onRemoteClose) (hread : Readable (bs ++ e.bytes)) :
    Phase (Envoy.step .quiet s e) (bs ++ e.bytes) ended (ready ∨ e = .onReceiveInitialMetadata)
      remote := by
  cases e with
  | decodeData data endStream =>
      exact .waiting (by simp [hwaits]) hopen (h.step_data data endStream)
  | onReceiveInitialMetadata =>
      simp only [Event.bytes, List.append_nil] at hread ⊢
      exact .follows hopen (h.ready hread.1 hread.2)
  | onReceiveMessage message => exact .waiting (by simp [hwaits]) hopen (h.step rfl (by simp))
  | onRemoteClose => exact absurd rfl hclose
  | encodeHeaders => exact .waiting (by simp [hwaits]) hopen (h.step rfl (by simp))
  | onDestroy => exact absurd rfl hkept

/-- While it follows the ideal relay. -/
theorem step_follows (hopen : ¬ remote) (h : Follows [] s (frameDecoder.scan relayStep [] bs))
    {e : Event} (hkept : e ≠ .onDestroy) (hclose : e ≠ .onRemoteClose)
    (hread : Readable (bs ++ e.bytes)) :
    Phase (Envoy.step .quiet s e) (bs ++ e.bytes) (ended ∨ e.Ends) ready remote := by
  have hcarry : (carried bs ++ e.bytes).length ≤ uint32Max := by
    have hcarried := carried_length bs
    have hlength := hread.1
    simp only [List.length_append] at hlength ⊢
    omega
  by_cases hplain : e.plain = true
  · exact .follows hopen (h.step hplain hcarry hread.2)
  · cases e with
    | decodeData data endStream =>
        obtain rfl : endStream = true := by simpa [Event.plain] using hplain
        have hstep := h.step (e := .decodeData data false) rfl hcarry hread.2
        rw [step_end h data hread]
        exact atEnd_of_follows hopen (.inr ⟨data, rfl⟩) hstep
    | onRemoteClose => exact absurd rfl hclose
    | onDestroy => exact absurd rfl hkept
    | _ => exact absurd rfl hplain

/-- A filter that has half-closed still writes what comes from upstream. -/
theorem step_closing (h : Phase s bs ended ready remote) (hstate : s.state = .closing)
    (hcallbacks : s.grpcCallbacks = true) {e : Event} (hkept : e ≠ .onDestroy)
    (hclose : e ≠ .onRemoteClose) : Phase (Envoy.step .quiet s e) bs ended ready remote := by
  cases e with
  | decodeData data endStream =>
      rw [deaf h.fault (.inl hstate) (.inl ⟨_, _, rfl⟩)]
      exact h
  | onReceiveInitialMetadata =>
      rw [deaf h.fault (.inl hstate) (.inr rfl)]
      exact h
  | onReceiveMessage message =>
      have hstep : Envoy.step .quiet s (.onReceiveMessage message) =
          s.emit (.addEncodedData (encodeFrame (if message.binary then kOpcodeBinary
            else kOpcodeText) message.payload) false) := by
        simp [Envoy.step, h.fault, hcallbacks, Envoy.onReceiveMessage, hstate]
      rw [hstep]
      exact h.emit (relayed_message _ _ _)
  | onRemoteClose => exact absurd rfl hclose
  | encodeHeaders =>
      simp only [Envoy.step, h.fault, Option.isSome_none, Bool.false_eq_true, if_false]
      exact h.emit rfl
  | onDestroy => exact absurd rfl hkept

theorem step (h : Phase s bs ended ready remote) {e : Event} (hkept : e ≠ .onDestroy)
    (hread : Readable (bs ++ e.bytes)) :
    Phase (Envoy.step .quiet s e) (bs ++ e.bytes) (ended ∨ e.Ends)
      (ready ∨ e = .onReceiveInitialMetadata) (remote ∨ e = .onRemoteClose) := by
  by_cases hstate : s.state = .closed
  · have hremote : remote := h.closed_iff.mp hstate
    obtain ⟨effects, heffects, hrelayed⟩ := h.relayed
    have hphase : Phase s (bs ++ e.bytes) (ended ∨ e.Ends)
        (ready ∨ e = .onReceiveInitialMetadata) (remote ∨ e = .onRemoteClose) :=
      .closed (.inl hremote) hstate h.fault effects (heffects.trans (relay_mono bs e.bytes))
        (hrelayed.imp id (And.imp .inl id))
    obtain hsame | ⟨-, hsame⟩ := step_closed hstate h.fault hkept
    · rw [hsame]
      exact hphase
    · rw [hsame]
      exact hphase.emit rfl
  · by_cases hclose : e = .onRemoteClose
    · subst hclose
      have hphase : Phase s bs (ended ∨ Event.onRemoteClose.Ends) ready remote := h.mono .inl
      simpa [Event.bytes] using hphase.remoteClose (h.grpcCallbacks hstate)
    · rw [show (remote ∨ e = .onRemoteClose) = remote by simp [hclose]]
      cases h with
      | waiting hwaits hopen h => exact (step_waiting hwaits hopen h hkept hclose hread).mono .inl
      | follows hopen h => exact step_follows hopen h hkept hclose hread
      | atEnd hopen before hbefore hended h =>
          have hphase : Phase s (bs ++ e.bytes) (ended ∨ e.Ends)
              (ready ∨ e = .onReceiveInitialMetadata) remote :=
            .atEnd hopen before (hbefore.trans (List.prefix_append _ _)) (.inl hended) h
          exact hphase.step_closing h.state h.grpcCallbacks hkept hclose
      | closed _ hclosed _ _ _ _ => exact absurd hclosed hstate

theorem run (h : Phase s bs ended ready remote) {events : List Event}
    (hkept : .onDestroy ∉ events) (hread : Readable (bs ++ received events)) :
    Phase (Envoy.run .quiet s events) (bs ++ received events) (ended ∨ ∃ e ∈ events, e.Ends)
      (ready ∨ .onReceiveInitialMetadata ∈ events) (remote ∨ .onRemoteClose ∈ events) := by
  induction events generalizing s bs ended ready remote with
  | nil => simpa [Envoy.run, received] using h
  | cons e events ih =>
      have hsplit : bs ++ received (e :: events) = (bs ++ e.bytes) ++ received events := by
        simp [received]
      rw [hsplit] at hread ⊢
      have hstep := h.step (List.ne_of_not_mem_cons hkept).symm hread.of_append
      have hrest := ih hstep (List.not_mem_of_not_mem_cons hkept) hread
      simp only [List.mem_cons, exists_eq_or_imp, ← or_assoc,
        eq_comm (a := Event.onReceiveInitialMetadata), eq_comm (a := Event.onRemoteClose)]
      exact hrest

end Phase

theorem phase_opened (config : WsGrpcBridgeConfig) {headers : HeaderMap}
    (hupgrade : isWebSocketUpgrade headers = true) :
    Phase (opened config headers ⟨false, true⟩) [] False False False :=
  .waiting id id (waiting_opened config hupgrade)

end Grpcgi.Envoy
