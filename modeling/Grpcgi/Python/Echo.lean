import Grpcgi.Python.Pump

/-!
# The echo app

The WebSocket app of the tests and of the examples, run by the bridge: what is
yielded under every schedule is a beginning of the client's frames, and all of
them once the call ends. The invariant ties the items in the send queue to the
events that the app has taken from the receive queue, with at most one reply in
the app's hands.
-/

namespace Grpcgi.Python.Ws

open Pipeline (Fifo Consumer End)

/-! ## The app -/

/-- Where `ws_echo_app` stands. -/
inductive EchoState where
  /-- at the first `receive()` -/
  | connecting
  | accepting
  /-- at the `receive()` of the loop -/
  | waiting
  | replying (event : SendEvent)
  | finished
  /-- an assertion fails -/
  | failed
  deriving DecidableEq, Repr

/-- `ws_echo_app`. -/
def wsEchoApp : AsgiApp EchoState where
  start scope := if scope.type = "websocket".toList then .connecting else .failed
  action
    | .connecting => .receive fun event =>
      match event with
      | .connect => .accepting
      | _ => .failed
    | .accepting => .send (.accept none) .waiting
    | .waiting => .receive fun event =>
      match event with
      | .receive (some data) _ => .replying (.send none (some data))
      | .receive none text => .replying (.send (text.map pyStr) none)
      | .disconnect _ => .finished
      | .connect => .waiting
    | .replying event => .send event .waiting
    | .finished => .returned
    | .failed => .raised

/-- What the app answers to an event. -/
def reply : ReceiveEvent → Option SendEvent
  | .connect => some (.accept none)
  | .receive (some data) _ => some (.send none (some data))
  | .receive none text => some (.send (text.map pyStr) none)
  | .disconnect _ => none

def answers (received : List ReceiveEvent) : List SendItem :=
  received.filterMap fun event => (reply event).map .event

theorem answers_append (xs ys : List ReceiveEvent) :
    answers (xs ++ ys) = answers xs ++ answers ys := List.filterMap_append

theorem not_mem_answers (received : List ReceiveEvent) : .appDone ∉ answers received := by
  intro h
  obtain ⟨event, -, hevent⟩ := List.mem_filterMap.mp h
  obtain ⟨answer, -, hanswer⟩ := Option.map_eq_some_iff.mp hevent
  cases hanswer

/-- The app, the events it has taken and the items it has put. -/
inductive Echoing : Option EchoState → List ReceiveEvent → List SendItem → Prop where
  | connecting : Echoing (some .connecting) [] []
  | accepting : Echoing (some .accepting) [.connect] []
  | waiting (received : List ReceiveEvent) (begun : received ≠ []) :
      Echoing (some .waiting) received (answers received)
  | replying (received : List ReceiveEvent) (sent : List SendItem) (event : SendEvent)
      (begun : received ≠ []) (pending : answers received = sent ++ [.event event]) :
      Echoing (some (.replying event)) received sent
  | finished (received : List ReceiveEvent) (closed : .disconnect 1000 ∈ received) :
      Echoing (some .finished) received (answers received)
  | done (received : List ReceiveEvent) (closed : .disconnect 1000 ∈ received) :
      Echoing none received (answers received ++ [.appDone])

/-! ## The inbound events -/

section Inbound

variable {frames : List Proto.Frame} {received : List ReceiveEvent} {event : ReceiveEvent}

/-- The first event is `websocket.connect`. -/
theorem first_event (h : [] ++ [event] <+: inboundEvents frames) : event = .connect := by
  obtain ⟨rest, hrest⟩ := h
  exact (List.cons.inj hrest).1

/-- Only `websocket.disconnect` and events for frames follow. -/
theorem later_event (hbegun : received ≠ [])
    (h : received ++ [event] <+: inboundEvents frames) :
    (∃ data text, event = .receive data text) ∨ event = .disconnect 1000 := by
  obtain ⟨first, received, rfl⟩ := List.exists_cons_of_ne_nil hbegun
  have htail : received ++ [event] <+: receiveEvents frames ++ [.disconnect 1000] :=
    (List.cons_prefix_cons.mp h).2
  have hmem := htail.subset (List.mem_append_right received (List.mem_singleton_self event))
  obtain hmem | hmem := List.mem_append.mp hmem
  · exact .inl (receive_of_mem hmem)
  · exact .inr (List.mem_singleton.mp hmem)

/-- `websocket.disconnect` is the last event. -/
theorem eq_inboundEvents (h : received <+: inboundEvents frames)
    (hover : .disconnect 1000 ∈ received) : received = inboundEvents frames := by
  obtain heq | hbefore := List.prefix_concat_iff.mp h
  · exact heq
  · obtain hmem | hmem := List.mem_cons.mp (hbefore.subset hover)
    · cases hmem
    · exact absurd hmem (not_mem_receiveEvents frames 1000)

end Inbound

/-! ## The app task -/

/-- The app takes an event. -/
theorem Echoing.receive {x : EchoState} {received : List ReceiveEvent} {sent : List SendItem}
    (h : Echoing (some x) received sent) {frames : List Proto.Frame} {event : ReceiveEvent}
    (hnext : received ++ [event] <+: inboundEvents frames) {resume : ReceiveEvent → EchoState}
    (haction : wsEchoApp.action x = .receive resume) :
    Echoing (some (resume event)) (received ++ [event]) sent := by
  cases h with
  | connecting =>
      cases haction
      obtain rfl := first_event hnext
      exact .accepting
  | accepting => cases haction
  | waiting _ begun =>
      cases haction
      obtain ⟨data, text, rfl⟩ | rfl := later_event begun hnext
      · cases data with
        | some data => exact .replying _ _ _ (by simp) (answers_append received _)
        | none => exact .replying _ _ _ (by simp) (answers_append received _)
      · have hsame : answers received = answers (received ++ [.disconnect 1000]) := by
          rw [answers_append]
          exact (List.append_nil _).symm
        rw [hsame]
        exact .finished _ (List.mem_append_right _ (List.mem_singleton_self _))
  | replying => cases haction
  | finished => cases haction

/-- The app sends. -/
theorem Echoing.send {x : EchoState} {received : List ReceiveEvent} {sent : List SendItem}
    (h : Echoing (some x) received sent) {event : SendEvent} {next : EchoState}
    (haction : wsEchoApp.action x = .send event next) :
    Echoing (some next) received (sent ++ [.event event]) := by
  cases h with
  | connecting => cases haction
  | accepting =>
      cases haction
      exact .waiting _ (List.cons_ne_nil _ _)
  | waiting => cases haction
  | replying _ _ _ begun pending =>
      cases haction
      rw [← pending]
      exact .waiting _ begun
  | finished => cases haction

/-- The app is over: it has returned. -/
theorem Echoing.exit {x : EchoState} {received : List ReceiveEvent} {sent : List SendItem}
    (h : Echoing (some x) received sent)
    (haction : wsEchoApp.action x = .returned ∨ wsEchoApp.action x = .raised) :
    Echoing none received (sent ++ [.appDone]) := by
  cases h with
  | connecting => obtain haction | haction := haction <;> cases haction
  | accepting => obtain haction | haction := haction <;> cases haction
  | waiting => obtain haction | haction := haction <;> cases haction
  | replying => obtain haction | haction := haction <;> cases haction
  | finished _ closed => exact .done _ closed

namespace Connect

/-- The invariant on the queues. -/
def Echo {context : ServicerContext} (s : Connect context EchoState) : Prop :=
  Echoing s.app s.receiveQueue.consumed s.responses.queue.history

theorem Echo.runApp {context : ServicerContext} {s : Connect context EchoState}
    {frames : List Proto.Frame} (h : s.Echo)
    (hqueue : s.receiveQueue.history <+: inboundEvents frames) :
    (s.runApp wsEchoApp).Echo := by
  simp only [Connect.runApp]
  split
  · exact h
  · rename_i x happ
    rw [Echo, happ] at h
    split
    · rename_i event next haction
      exact h.send haction
    · rename_i resume haction
      split
      · rw [Echo, happ]
        exact h
      · rename_i event queue hget
        obtain ⟨hhistory, hconsumed⟩ := Fifo.get?_some hget
        have hnext : s.receiveQueue.consumed ++ [event] <+: inboundEvents frames := by
          rw [← hconsumed]
          exact queue.consumed_prefix.trans (hhistory ▸ hqueue)
        have hreceive := h.receive hnext haction
        rw [← hconsumed] at hreceive
        exact hreceive
    · rename_i haction
      exact h.exit (.inl haction)
    · rename_i haction
      exact h.exit (.inr haction)

end Connect

/-! ## What is yielded -/

section Items

variable {received : List ReceiveEvent} {sent : List SendItem} {a : Option EchoState}

/-- Every item is a reply or `_APP_DONE`. -/
theorem Echoing.sent_prefix (h : Echoing a received sent) :
    sent <+: answers received ++ [.appDone] := by
  cases h with
  | connecting => exact List.nil_prefix
  | accepting => exact List.nil_prefix
  | waiting => exact List.prefix_append _ _
  | replying _ _ event _ pending =>
      rw [pending, List.append_assoc]
      exact List.prefix_append _ _
  | finished => exact List.prefix_append _ _
  | done => exact List.prefix_rfl

/-- `_APP_DONE` is there only when the app is over, with the whole input taken. -/
theorem Echoing.of_appDone (h : Echoing a received sent) (hdone : .appDone ∈ sent) :
    a = none ∧ .disconnect 1000 ∈ received ∧ sent = answers received ++ [.appDone] := by
  cases h with
  | connecting => cases hdone
  | accepting => cases hdone
  | waiting => exact absurd hdone (not_mem_answers _)
  | replying _ _ event _ pending =>
      refine absurd ?_ (not_mem_answers received)
      rw [pending]
      exact List.mem_append_left _ hdone
  | finished => exact absurd hdone (not_mem_answers _)
  | done _ closed => exact ⟨rfl, closed, rfl⟩

/-- A reply yields at most a frame, never ends the loop and needs no metadata. -/
theorem consume_reply {event : ReceiveEvent} {answer : SendEvent} (h : reply event = some answer)
    (context : ServicerContext) (output : List Output) :
    consume context output (.event answer) = consume context [] (.event answer) ∧
      (consume context [] (.event answer)).2 = none := by
  cases event with
  | connect =>
      cases h
      exact ⟨rfl, rfl⟩
  | receive data text =>
      cases data with
      | some data =>
          cases h
          exact ⟨rfl, rfl⟩
      | none =>
          cases h
          cases text with
          | none => exact ⟨rfl, rfl⟩
          | some text => simp [consume]
  | disconnect => cases h

theorem consume_sent (h : sent <+: answers received ++ [.appDone]) (context : ServicerContext)
    (output : List Output) :
    ∀ x ∈ sent, consume context output x = consume context [] x ∧
      ((consume context [] x).2 = none ∨
        x = .appDone ∧ (consume context [] x).2 = some .stopped) := by
  intro x hx
  obtain hx | hx := List.mem_append.mp (h.subset hx)
  · obtain ⟨event, -, hevent⟩ := List.mem_filterMap.mp hx
    obtain ⟨answer, hreply, rfl⟩ := Option.map_eq_some_iff.mp hevent
    obtain ⟨hsame, hnone⟩ := consume_reply hreply context output
    exact ⟨hsame, .inl hnone⟩
  · cases List.mem_singleton.mp hx
    exact ⟨rfl, .inr ⟨rfl, rfl⟩⟩

end Items

/-- The frame that an item yields. -/
def SendItem.frame? (context : ServicerContext) (x : SendItem) : Option Proto.Frame :=
  (consume context [] x).1.bind Output.frame?

/-- The reply to the event for a frame is that frame. -/
theorem frame_reply (context : ServicerContext) {frame : Proto.Frame} {event : ReceiveEvent}
    (h : receiveEvent frame = some event) :
    ((reply event).map SendItem.event).bind (SendItem.frame? context) = some frame := by
  obtain ⟨payload, binary⟩ := frame
  cases binary with
  | true =>
      cases h
      rfl
  | false =>
      obtain ⟨text, htext, rfl⟩ := Option.map_eq_some_iff.mp h
      have hpayload := utf8Encode_utf8Decode htext
      change ((consume context [] (.event (.send (some (pyStr text)) none))).1.bind _) = _
      simp only [consume, encodeText_pyStr, hpayload]
      rfl

theorem frames_answers (context : ServicerContext) {frames : List Proto.Frame}
    (hvalid : ValidText frames) :
    (answers (inboundEvents frames) ++ [SendItem.appDone]).filterMap
      (SendItem.frame? context) = frames := by
  have hreceived :
      (answers (receiveEvents frames)).filterMap (SendItem.frame? context) = frames := by
    induction frames with
    | nil => rfl
    | cons frame frames ih =>
        obtain ⟨event, hevent⟩ := Option.isSome_iff_exists.mp
          (receiveEvent_isSome.mpr (hvalid frame List.mem_cons_self))
        have hrest := ih fun f hf => hvalid f (List.mem_cons_of_mem frame hf)
        have hfirst := frame_reply context hevent
        rw [answers, List.filterMap_filterMap] at hrest ⊢
        rw [receiveEvents, hevent]
        simp only [List.filterMap_cons, hfirst, hrest]
  have hsplit : answers (inboundEvents frames) =
      SendItem.event (.accept none) :: answers (receiveEvents frames) := by
    rw [inboundEvents, answers_append]
    exact List.append_nil _
  calc
    (answers (inboundEvents frames) ++ [SendItem.appDone]).filterMap (SendItem.frame? context) =
        (answers (inboundEvents frames)).filterMap (SendItem.frame? context) := by
      rw [List.filterMap_append]
      exact List.append_nil _
    _ = (answers (receiveEvents frames)).filterMap (SendItem.frame? context) := by
      rw [hsplit]
      rfl
    _ = frames := hreceived

namespace Connect

/-- What holds between the turns. -/
structure Relaying {context : ServicerContext} (frames : List Proto.Frame)
    (s : Connect context EchoState) : Prop where
  inbound : s.receiveQueue.history <+: inboundEvents frames
  echo : s.Echo
  follows : s.responses.Follows (consume context [])

section Relaying

variable {context : ServicerContext} {frames : List Proto.Frame} {s : Connect context EchoState}

/-- The items put are those of the whole stream, so far. -/
theorem Relaying.sent_prefix (h : s.Relaying frames) :
    s.responses.queue.history <+: answers (inboundEvents frames) ++ [.appDone] := by
  obtain ⟨hinbound, hecho, -⟩ := h
  have hreceived : s.receiveQueue.consumed <+: inboundEvents frames :=
    s.receiveQueue.consumed_prefix.trans hinbound
  obtain heq | hbefore := List.prefix_concat_iff.mp hecho.sent_prefix
  · have hover := (hecho.of_appDone (by rw [heq]; simp)).2.1
    have hall : s.responses.queue.history = answers (inboundEvents frames) ++ [.appDone] := by
      rw [heq, eq_inboundEvents hreceived hover]
    exact hall ▸ List.prefix_rfl
  · exact (hbefore.trans (hreceived.filterMap _)).trans (List.prefix_append _ _)

/-- A loop that has ended has ended at `_APP_DONE`. -/
theorem Relaying.ended (h : s.Relaying frames) {e : End} (hended : s.ended = some e) :
    e = .stopped ∧ s.app = none ∧
      s.responses.queue.consumed = answers (inboundEvents frames) ++ [.appDone] := by
  obtain ⟨before, x, hconsumed, -, hmark⟩ := h.follows.ended_at e hended
  have hprefix := s.responses.queue.consumed_prefix
  have hx : x ∈ s.responses.queue.history := by
    apply hprefix.subset
    rw [hconsumed]
    exact List.mem_append_right _ (List.mem_singleton_self x)
  obtain ⟨-, hnone | ⟨rfl, hstop⟩⟩ := consume_sent h.echo.sent_prefix context [] x hx
  · rw [hnone] at hmark
    cases hmark
  · obtain ⟨happ, hover, hsent⟩ := h.echo.of_appDone hx
    have hreceived := eq_inboundEvents (s.receiveQueue.consumed_prefix.trans h.inbound) hover
    rw [hstop] at hmark
    refine ⟨(Option.some.inj hmark).symm, happ, ?_⟩
    rw [hsent, hreceived] at hprefix
    obtain heq | hbefore := List.prefix_concat_iff.mp hprefix
    · exact heq
    · refine absurd (hbefore.subset ?_) (not_mem_answers _)
      rw [hconsumed]
      exact List.mem_append_right _ (List.mem_singleton_self _)

theorem Relaying.step (h : s.Relaying frames) (task : Task)
    (hinbound : (s.step wsEchoApp task).receiveQueue.history <+: inboundEvents frames) :
    (s.step wsEchoApp task).Relaying frames := by
  refine ⟨hinbound, ?_, ?_⟩
  · cases task with
    | pump =>
        rw [Echo]
        simp only [Connect.step, runPump, Fifo.consumed_putAll]
        exact h.echo
    | app => exact h.echo.runApp h.inbound
    | consumer =>
        rw [Echo]
        simp only [Connect.step, runConsumer, Consumer.step_history]
        exact h.echo
    | cancelPump =>
        simp only [Connect.step]
        split <;> exact h.echo
    | cancelApp =>
        simp only [Connect.step]
        split
        · rename_i hcancel
          obtain ⟨e, he⟩ := Option.isSome_iff_exists.mp hcancel.1
          rw [(h.ended he).2.1] at hcancel
          cases hcancel.2
        · exact h.echo
  · cases task with
    | pump => exact h.follows
    | app =>
        simp only [Connect.step, Connect.runApp]
        split
        · exact h.follows
        · split
          · exact h.follows.put _
          · split <;> exact h.follows
          · exact h.follows.put _
          · exact h.follows.put _
    | consumer =>
        simp only [Connect.step, runConsumer]
        rw [Consumer.step_congr fun x hx => (consume_sent h.echo.sent_prefix _ _ x hx).1]
        exact h.follows.step
    | cancelPump =>
        simp only [Connect.step]
        split <;> exact h.follows
    | cancelApp =>
        simp only [Connect.step]
        split
        · exact h.follows.put _
        · exact h.follows

/-- The frames yielded are those of the items taken. -/
theorem Relaying.yielded_eq (h : s.Relaying frames) :
    s.yielded = s.responses.queue.consumed.filterMap (SendItem.frame? context) := by
  rw [yielded, h.follows.output_eq, List.filterMap_filterMap]
  rfl

end Relaying

end Connect

theorem relaying_run (u : Unicode) (context : ServicerContext) {frames : List Proto.Frame}
    (hvalid : ValidText frames) (schedule : List Task) :
    ((connect u wsEchoApp context frames).run wsEchoApp schedule).Relaying frames := by
  have hinbound := (inbound_iff u wsEchoApp context frames).mpr hvalid
  induction schedule using List.reverseRecOn with
  | nil =>
      refine ⟨(hinbound []).sofar, ?_, Pipeline.Consumer.follows_empty⟩
      have hstart : wsEchoApp.start (buildScope u context.invocationMetadata) = .connecting := rfl
      change Echoing (some (wsEchoApp.start (buildScope u context.invocationMetadata))) [] []
      rw [hstart]
      exact .connecting
  | append_singleton schedule task ih =>
      have hsofar := (hinbound (schedule ++ [task])).sofar
      rw [Connect.run_concat] at hsofar ⊢
      exact ih.step task hsofar

/-- Under every schedule the client gets its own frames back in order, and all of
them if the call ends. -/
theorem echo_relayed (u : Unicode) (context : ServicerContext) (frames : List Proto.Frame)
    (hvalid : ValidText frames) (schedule : List Task) :
    ((connect u wsEchoApp context frames).run wsEchoApp schedule).yielded <+: frames ∧
      ∀ e, ((connect u wsEchoApp context frames).run wsEchoApp schedule).ended = some e →
        e = .stopped ∧
        ((connect u wsEchoApp context frames).run wsEchoApp schedule).yielded = frames := by
  have hrelaying := relaying_run u context hvalid schedule
  generalize (connect u wsEchoApp context frames).run wsEchoApp schedule = s at hrelaying ⊢
  constructor
  · rw [hrelaying.yielded_eq]
    have hprefix := (s.responses.queue.consumed_prefix.trans hrelaying.sent_prefix).filterMap
      (SendItem.frame? context)
    rwa [frames_answers context hvalid] at hprefix
  · intro e hended
    obtain ⟨rfl, -, hconsumed⟩ := hrelaying.ended hended
    refine ⟨rfl, ?_⟩
    rw [hrelaying.yielded_eq, hconsumed, frames_answers context hvalid]

/-- An empty text frame and a binary frame, under a schedule that ends the call. -/
theorem echo_relayed_two :
    ((connect .ascii wsEchoApp (.taking []) [⟨[], false⟩, ⟨[0xFF], true⟩]).run wsEchoApp
      (List.replicate 3 .pump ++ List.replicate 8 .app ++ List.replicate 4 .consumer)).yielded =
      [⟨[], false⟩, ⟨[0xFF], true⟩] :=
  ((echo_relayed .ascii (.taking []) [⟨[], false⟩, ⟨[0xFF], true⟩] (by decide) _).2
    .stopped (by decide)).2

end Grpcgi.Python.Ws
