import Grpcgi.Bridge.System
import Grpcgi.Envoy.Phase
import Grpcgi.WebSocket.Message

/-!
# What a connection carries

The app finds what the filter forwards of the client's frames in order, each once, and
the disconnect after the last one: the client's messages, if none of them is fragmented.
The client gets the app's messages in order, and the Close after the last one of a call
that has ended. No order in which the bytes, the messages and the tasks take their turns
makes a difference to that.
-/

namespace Grpcgi

open Envoy (Effect FromServer HeaderMap Holds Phase Readable WsGrpcBridgeConfig isWebSocketUpgrade
  messageOf relay relayedBy streamEffects written)
open Python.Ws (AsgiApp Connect Refused SendEvent ServicerContext beforeClose inboundEvents pyStr)
open WebSocket (Frame Sends encodeAll)

/-- What the filter is to forward of the client's frames: a message for each text and each
binary frame in front of the first Close, whatever its FIN, and nothing for a
continuation. -/
def forwardedMessages : List Frame → List Proto.Frame
  | [] => []
  | f :: fs => if f.IsClose then [] else (messageOf f).toList ++ forwardedMessages fs

/-- They are what the filter is to send. -/
theorem filterMap_streamEffects (frames : List Frame) :
    (streamEffects frames).filterMap sent? = forwardedMessages frames := by
  induction frames with
  | nil => rfl
  | cons f fs ih =>
      simp only [streamEffects, forwardedMessages, messageOf]
      split
      · rfl
      · split
        · simp [sent?, ih]
        · split
          · rw [List.filterMap_cons_none rfl, ih]
            rfl
          · rw [ih]
            rfl

theorem forwardedMessages_append {frames : List Frame} (hclose : ∀ f ∈ frames, ¬ f.IsClose)
    (rest : List Frame) :
    forwardedMessages (frames ++ rest) = forwardedMessages frames ++ forwardedMessages rest := by
  induction frames with
  | nil => rfl
  | cons f fs ih =>
      obtain ⟨hf, hfs⟩ := List.forall_mem_cons.mp hclose
      simp only [List.cons_append, forwardedMessages, if_neg hf, ih hfs, List.append_assoc]

/-- The client's messages, if none is fragmented and no frame but a Close follows them. -/
theorem forwardedMessages_whole {frames : List Frame} {messages : List Bytes}
    (hsends : Sends none frames messages) (hwhole : ∀ f ∈ frames, f.IsData → f.fin = true)
    {rest : List Frame} (hrest : ∀ f ∈ rest.head?, f.IsClose) :
    (forwardedMessages (frames ++ rest)).map Proto.Frame.payload = messages := by
  have hnone : forwardedMessages rest = [] := by
    cases rest with
    | nil => rfl
    | cons f fs => exact if_pos (hrest f rfl)
  rw [forwardedMessages_append hsends.not_close, hnone, List.append_nil]
  clear hrest hnone
  generalize hbegun : (none : Option Bytes) = begun at hsends
  induction hsends with
  | done => rfl
  | control hf hfs ih =>
      have hdata := fun h => WebSocket.not_message_of_control hf (.inl h)
      rw [forwardedMessages, if_neg ((hfs.control hf).not_close _ List.mem_cons_self), messageOf,
        if_neg hdata]
      exact ih (List.forall_mem_cons.mp hwhole).2 hbegun
  | whole hf hfin hfs ih =>
      rw [forwardedMessages, if_neg ((hfs.whole hf hfin).not_close _ List.mem_cons_self),
        messageOf, if_pos hf]
      exact congrArg (_ :: ·) (ih (List.forall_mem_cons.mp hwhole).2 hbegun)
  | first hf hfin _ _ =>
      rw [hwhole _ List.mem_cons_self hf] at hfin
      cases hfin
  | middle _ _ _ _ => cases hbegun
  | last _ _ _ _ => cases hbegun

theorem closeStream_mem_streamEffects (frames : List Frame) :
    .closeStream ∈ streamEffects frames ↔ ∃ f ∈ frames, f.IsClose := by
  induction frames with
  | nil => simp [streamEffects]
  | cons f fs ih =>
      simp only [streamEffects]
      split
      · rename_i hclose
        simp [hclose]
      · rename_i hclose
        split
        · simp [ih, hclose]
        · split
          · simp [ih, hclose]
          · simp [ih, hclose]

theorem sentMessages_eq (s : Envoy.Filter) :
    sentMessages s = (relayedBy s).filterMap sent? := by
  rw [sentMessages, relayedBy, List.filterMap_filter]
  congr 1
  funext e
  cases e with
  | addEncodedData data endStream =>
      cases hpong : Effect.relayed (.addEncodedData data endStream) <;> rfl
  | _ => rfl

namespace Bridge

section Order

variable {σ : Type} {u : Unicode} {app : AsgiApp σ} {context : ServicerContext}
  {config : WsGrpcBridgeConfig} {headers : HeaderMap} {moves : List Move} {s : Bridge context σ}

/-! ## From the client to the app -/

/-- The client's stream has come to its end. -/
def Ended (moves : List Move) : Prop := ∃ move ∈ moves, move.Ends

theorem Sound.phase (h : Sound u app context config headers moves s)
    (hupgrade : isWebSocketUpgrade headers = true) (hread : Readable (clientBytes moves)) :
    Phase s.filter (clientBytes moves) (Ended moves) (s.accepted = true) (s.closed = true) := by
  obtain ⟨events, hevents⟩ := h.callbacks
  rw [← hevents.received_eq] at hread ⊢
  have hphase := (Envoy.phase_opened config hupgrade).run hevents.kept hread
  rw [← hevents.filter_eq, hevents.ready_iff, hevents.closed_iff, false_or, false_or,
    false_or] at hphase
  exact hphase.mono hevents.ends

/-- What has been sent is a beginning of what is to be forwarded, and all of it once the
stream is over because of a Close. -/
theorem Sound.sent (h : Sound u app context config headers moves s)
    (hupgrade : isWebSocketUpgrade headers = true) {frames : List Frame} {tail : Bytes}
    (htail : WebSocket.Partial tail) (hbytes : clientBytes moves = encodeAll frames ++ tail)
    (hlength : (encodeAll frames ++ tail).length < 2 ^ 32) :
    sentMessages s.filter <+: forwardedMessages frames ∧
      (.closeStream ∈ s.filter.trace → Ended moves ∨
        sentMessages s.filter = forwardedMessages frames ∧ ∃ f ∈ frames, f.IsClose) := by
  have hread := Envoy.readable_frames htail hlength
  rw [← hbytes] at hread
  have hphase := h.phase hupgrade hread
  have hrelay : relay (clientBytes moves) = streamEffects frames := by
    rw [hbytes, relay, (Envoy.scan_frames frames htail).1]
  obtain ⟨effects, heffects, hrelayed⟩ := hphase.relayed
  rw [hrelay] at heffects
  rw [sentMessages_eq, ← filterMap_streamEffects]
  constructor
  · obtain heq | ⟨-, heq⟩ := hrelayed
    · rw [heq]
      exact heffects.filterMap sent?
    · rw [heq, List.filterMap_append]
      exact (List.append_nil (effects.filterMap sent?)).symm ▸ heffects.filterMap sent?
  · intro hclosed
    obtain hended | hall := hphase.relayed_halfClosed hclosed
    · exact .inl hended
    · rw [hrelay] at hall
      have hmem : .closeStream ∈ relayedBy s.filter := List.mem_filter.mpr ⟨hclosed, rfl⟩
      rw [hall] at hmem ⊢
      exact .inr ⟨rfl, (closeStream_mem_streamEffects frames).mp hmem⟩

/-- What the filter has written, as frames. -/
structure Wrote (s : Bridge context σ) (replies : List Frame) : Prop where
  written_eq : written s.filter = replies.map fun f => (f.encode, decide f.IsClose)
  server : ∀ f ∈ replies, FromServer f
  messages : replies.filterMap messageOf = s.server.yielded.take s.delivered
  last : replies.Pairwise fun f _ => ¬ f.IsClose
  closed_iff : (∃ f ∈ replies, f.IsClose) ↔ s.closed = true

/-- While the stream is open. -/
theorem Sound.wrote_open (h : Sound u app context config headers moves s)
    (hupgrade : isWebSocketUpgrade headers = true) (hread : Readable (clientBytes moves))
    (hholds : ∀ frame ∈ s.server.yielded, Holds frame.payload) (hopen : s.closed = false) :
    ∃ replies, Wrote s replies ∧ ∀ f ∈ replies, ¬ f.IsClose := by
  have hphase := h.phase hupgrade hread
  obtain ⟨events, hevents⟩ := h.callbacks
  have htold : ∀ frame, .onReceiveMessage frame ∈ events → Holds frame.payload := by
    intro frame hmem
    have hheard := hevents.told frame hmem
    rw [hevents.heard_eq] at hheard
    exact hholds frame (List.mem_of_mem_take hheard)
  have hspeaks := Envoy.speaks_run .quiet config hupgrade ⟨false, true⟩ htold
  rw [← hevents.filter_eq, hevents.heard_eq] at hspeaks
  obtain ⟨replies, hspoken⟩ := hspeaks
  have hstate : s.filter.state ≠ .closed := by
    rw [ne_eq, hphase.closed_iff, hopen]
    exact Bool.false_ne_true
  have hnone := hspoken.closed hstate
  refine ⟨replies, ⟨hspoken.written_eq, hspoken.server, hspoken.current hstate hphase.fault,
    hspoken.last, ?_⟩, hnone⟩
  simp only [hopen, Bool.false_eq_true, iff_false]
  rintro ⟨f, hf, hclose⟩
  exact hnone f hf hclose

/-- The close adds the Close frame. -/
theorem Sound.wrote_close (h : Sound u app context config headers moves s)
    (hupgrade : isWebSocketUpgrade headers = true) (hread : Readable (clientBytes moves))
    (hholds : ∀ frame ∈ s.server.yielded, Holds frame.payload) (hopen : s.closed = false) :
    ∃ replies, Wrote { s.callback .onRemoteClose with closed := true } replies := by
  obtain ⟨replies, hwrote, hnone⟩ := h.wrote_open hupgrade hread hholds hopen
  have hphase := h.phase hupgrade hread
  have hstate : s.filter.state ≠ .closed := by
    rw [ne_eq, hphase.closed_iff, hopen]
    exact Bool.false_ne_true
  have hcallbacks : s.filter.grpcCallbacks = true := hphase.grpcCallbacks hstate
  have hclosed : (s.callback .onRemoteClose).filter = Envoy.onRemoteClose s.filter := by
    simp [callback, Envoy.step, hphase.fault, hcallbacks]
  have hmessage : messageOf Envoy.closeFrame = none := if_neg (by decide)
  have hclose : Envoy.closeFrame.IsClose := rfl
  refine ⟨replies ++ [Envoy.closeFrame], ?_, ?_, ?_, ?_, ?_⟩
  · have hbefore : s.filter.trace.filterMap Effect.written? = _ := hwrote.written_eq
    have hwrite : [Effect.addEncodedData Envoy.closeFrame.encode true].filterMap Effect.written? =
      [(Envoy.closeFrame.encode, true)] := rfl
    have hreset : [Effect.resetDownstream].filterMap Effect.written? = [] := rfl
    simp only [hclosed, Envoy.onRemoteClose_open hstate, written, List.filterMap_append, hbefore,
      List.map_append, List.map_singleton, Envoy.closeFrame_encode, hclose, decide_true, hwrite,
      hreset, List.append_nil]
  · intro f hf
    obtain hf | hf := List.mem_append.mp hf
    · exact hwrote.server f hf
    · rw [List.mem_singleton.mp hf]
      exact ⟨rfl, rfl, rfl, .inr (.inr ⟨rfl, rfl⟩)⟩
  · rw [List.filterMap_append, hwrote.messages, List.filterMap_cons_none hmessage,
      List.filterMap_nil, List.append_nil]
    rfl
  · rw [List.pairwise_append]
    exact ⟨hwrote.last, List.pairwise_singleton _ _, fun f hf _ _ => hnone f hf⟩
  · simp only [iff_true]
    exact ⟨Envoy.closeFrame, List.mem_append_right _ (List.mem_singleton_self _), hclose⟩

/-- After the close no move changes what the client gets. -/
theorem Sound.frozen (h : Sound u app context config headers moves s)
    (hstate : s.filter.state = .closed) (hfault : s.filter.fault = none)
    (hclosed : s.closed = true) (move : Move) :
    (s.step app move).filter = s.filter ∧ (s.step app move).delivered = s.delivered ∧
      (s.step app move).server.yielded = s.server.yielded ∧ (s.step app move).closed = true := by
  obtain ⟨hended, hall⟩ := h.closed hclosed
  have hsame := (precedes_step app s move).ended hended
  have hyielded : (s.step app move).server.yielded = s.server.yielded :=
    congrArg (fun r => r.1.filterMap Python.Ws.Output.frame?) hsame
  have hmoved := moved_step app s move
  generalize s.step app move = t at hmoved hyielded ⊢
  cases hmoved with
  | idle hbytes => exact ⟨rfl, rfl, rfl, hclosed⟩
  | client data endStream =>
      exact ⟨Phase.deaf hfault (.inr hstate) (.inl ⟨_, _, rfl⟩), rfl, rfl, hclosed⟩
  | arrive hnext => exact ⟨rfl, rfl, rfl, hclosed⟩
  | turn hgo => exact ⟨rfl, rfl, hyielded, hclosed⟩
  | ready hsaid hwaits =>
      have hopen := (h.unaccepted hwaits).2
      rw [hclosed] at hopen
      cases hopen
  | message hnext haccepted =>
      have hlt := (List.getElem?_eq_some_iff.mp hnext).1
      omega
  | close haccepted hended hall hopen =>
      rw [hclosed] at hopen
      cases hopen

theorem clientBytes_concat (moves : List Move) (move : Move) :
    clientBytes (moves ++ [move]) = clientBytes moves ++ move.bytes := by
  rw [clientBytes, List.flatMap_append, List.flatMap_singleton, clientBytes]

/-- Only the status closes the connection. -/
theorem closed_step {app : AsgiApp σ} {s : Bridge context σ} {move : Move}
    (hopen : s.closed = false) (hclosed : (s.step app move).closed = true) :
    s.step app move = { s.callback .onRemoteClose with closed := true } := by
  have hnot : s.closed ≠ true := by simp [hopen]
  have hmoved := moved_step app s move
  generalize s.step app move = t at hmoved hclosed ⊢
  cases hmoved with
  | close _ _ _ _ => rfl
  | _ => exact absurd hclosed hnot

theorem sound_run (u : Unicode) (app : AsgiApp σ) (context : ServicerContext)
    (config : WsGrpcBridgeConfig) (headers : HeaderMap) (moves : List Move) :
    Sound u app context config headers moves
      ((start u app context config headers).run app moves) :=
  sound_start.run moves

/-- Every run. -/
theorem wrote_run (hupgrade : isWebSocketUpgrade headers = true) {moves : List Move}
    (hread : Readable (clientBytes moves))
    (hholds : ∀ frame ∈ ((start u app context config headers).run app moves).server.yielded,
      Holds frame.payload) :
    ∃ replies, Wrote ((start u app context config headers).run app moves) replies := by
  induction moves using List.reverseRecOn with
  | nil =>
      obtain ⟨replies, hwrote, -⟩ := sound_start.wrote_open hupgrade hread hholds rfl
      exact ⟨replies, hwrote⟩
  | append_singleton moves move ih =>
      have hnext := sound_run u app context config headers (moves ++ [move])
      have hread' := hread
      rw [clientBytes_concat] at hread'
      rw [run_concat] at hholds hnext ⊢
      have hsound := sound_run u app context config headers moves
      have hgrows := yielded_step app ((start u app context config headers).run app moves) move
      have hbefore := fun frame hmem => hholds frame (hgrows.subset hmem)
      have ih := ih hread'.of_append hbefore
      generalize (start u app context config headers).run app moves = s at *
      by_cases hopen : (s.step app move).closed = false
      · obtain ⟨replies, hwrote, -⟩ := hnext.wrote_open hupgrade hread hholds hopen
        exact ⟨replies, hwrote⟩
      · have hclosed : (s.step app move).closed = true := Bool.not_eq_false _ ▸ hopen
        by_cases hwas : s.closed = false
        · rw [closed_step hwas hclosed]
          exact hsound.wrote_close hupgrade hread'.of_append hbefore hwas
        · have hover : s.closed = true := Bool.not_eq_false _ ▸ hwas
          have hphase := hsound.phase hupgrade hread'.of_append
          obtain ⟨hfilter, hdelivered, hyielded, -⟩ :=
            hsound.frozen (hphase.closed_iff.mpr hover) hphase.fault hover move
          obtain ⟨replies, hwrote⟩ := ih
          refine ⟨replies, hfilter ▸ hwrote.written_eq, hwrote.server, ?_, hwrote.last, ?_⟩
          · rw [hdelivered, hyielded]
            exact hwrote.messages
          · rw [hwrote.closed_iff, hover, hclosed]

end Order

/-- An app that settles on a subprotocol and then answers every message. -/
def chatApp : AsgiApp (Option Python.Ws.SendEvent) where
  start _ := some (.accept (some (pyStr "chat".toList)))
  action
    | some event => .send event none
    | none => .receive fun event =>
      match event with
      | .connect => none
      | .receive data text => some (.send (text.map pyStr) data)
      | .disconnect _ => some .close

end Bridge

end Grpcgi
