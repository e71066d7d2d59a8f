import Grpcgi.Envoy.Downstream
import Grpcgi.Envoy.Failure
import Grpcgi.Envoy.Lifecycle
import Grpcgi.Python.Arrival
import Grpcgi.Python.Outbound

/-!
# A WebSocket connection through the native filter

`WsGrpcBridgeFilter` and `WebSocketBridgeServicer.Connect` as one system, with the gRPC
stream between them. The client's bytes come in any pieces, the stream carries messages
in order, and the tasks of the server take turns; all of it in any order. gRPC hands the
initial metadata to the filter when the server sends something or ends the call, before
everything else, and the status when all the messages have been handed over. The stream
does not fail and the client does not drop the connection.

The filter is the one of `Envoy.Filter`, the server the one of `Python.Connect`; a pump
with nothing to read waits until the filter has half-closed the stream and everything
it sent has arrived.
-/

namespace Grpcgi

open Envoy (Effect Filter HeaderMap WsGrpcBridgeConfig opened)
open Pipeline (Precedes)
open Python.Ws (AsgiApp Connect ServicerContext Served Task connect)

/-- The message of a `sendMessage`. -/
def sent? : Effect → Option Proto.Frame
  | .sendMessage frame _ => some frame
  | _ => none

/-- The messages that the filter has sent. -/
def sentMessages (s : Filter) : List Proto.Frame := s.trace.filterMap sent?

structure Bridge (context : ServicerContext) (σ : Type) where
  filter : Filter
  server : Connect context σ
  /-- how many of the filter's messages have reached the server -/
  arrived : Nat := 0
  /-- the initial metadata has reached the filter -/
  accepted : Bool := false
  /-- how many of the server's frames have reached the filter -/
  delivered : Nat := 0
  /-- the status has reached the filter -/
  closed : Bool := false

namespace Bridge

/-- What can happen next. -/
inductive Move where
  /-- bytes from the client -/
  | client (data : Bytes) (endStream : Bool)
  /-- a message reaches the server -/
  | arrive
  /-- a turn of one of the server's tasks -/
  | turn (task : Task)
  /-- the initial metadata reaches the filter -/
  | ready
  /-- a frame reaches the filter -/
  | message
  /-- the status reaches the filter -/
  | close
  deriving DecidableEq

def Move.bytes : Move → Bytes
  | .client data _ => data
  | _ => []

/-- The client's byte stream. -/
def clientBytes (moves : List Move) : Bytes := moves.flatMap Move.bytes

section System

variable {context : ServicerContext} {σ : Type}

/-- The server has sent something, or has ended the call. -/
def said (s : Connect context σ) : Bool := !s.responses.output.isEmpty || s.ended.isSome

/-- The stream towards the server is over, and everything has arrived. -/
def complete (s : Bridge context σ) : Bool :=
  s.filter.trace.contains .closeStream && s.arrived == (sentMessages s.filter).length

/-- A pump that waits for the next frame. -/
def waiting (s : Bridge context σ) (task : Task) : Bool :=
  task == .pump && s.server.pump == some [] && !s.complete

/-- A callback of the filter. -/
def callback (e : Envoy.Event) (s : Bridge context σ) : Bridge context σ :=
  { s with filter := Envoy.step .quiet s.filter e }

/-- One move. One that nothing is there for changes nothing. -/
def step (app : AsgiApp σ) (s : Bridge context σ) : Move → Bridge context σ
  | .client data endStream => s.callback (.decodeData data endStream)
  | .arrive =>
    match (sentMessages s.filter)[s.arrived]? with
    | some frame => { s with server := s.server.feed [frame], arrived := s.arrived + 1 }
    | none => s
  | .turn task => if s.waiting task then s else { s with server := s.server.step app task }
  | .ready =>
    if said s.server && !s.accepted then
      { s.callback .onReceiveInitialMetadata with accepted := true }
    else s
  | .message =>
    match s.server.yielded[s.delivered]? with
    | some frame =>
      if s.accepted then
        { s.callback (.onReceiveMessage frame) with delivered := s.delivered + 1 }
      else s
    | none => s
  | .close =>
    if s.accepted && s.server.ended.isSome && s.delivered == s.server.yielded.length && !s.closed
    then { s.callback .onRemoteClose with closed := true }
    else s

def run (app : AsgiApp σ) (moves : List Move) (s : Bridge context σ) : Bridge context σ :=
  moves.foldl (step app) s

/-- A connection whose upgrade request has come. -/
def start (u : Unicode) (app : AsgiApp σ) (context : ServicerContext)
    (config : WsGrpcBridgeConfig) (headers : HeaderMap) : Bridge context σ where
  filter := opened config headers ⟨false, true⟩
  server := connect u app context []

theorem run_concat (app : AsgiApp σ) (moves : List Move) (move : Move) (s : Bridge context σ) :
    s.run app (moves ++ [move]) = (s.run app moves).step app move := by
  simp only [run, List.foldl_append, List.foldl_cons, List.foldl_nil]

/-- What a move can do. -/
inductive Moved (app : AsgiApp σ) (s : Bridge context σ) : Move → Bridge context σ → Prop where
  /-- nothing was there for it -/
  | idle {move : Move} (hbytes : move.bytes = []) : Moved app s move s
  | client (data : Bytes) (endStream : Bool) :
      Moved app s (.client data endStream) (s.callback (.decodeData data endStream))
  | arrive {frame : Proto.Frame} (hnext : (sentMessages s.filter)[s.arrived]? = some frame) :
      Moved app s .arrive { s with server := s.server.feed [frame], arrived := s.arrived + 1 }
  | turn {task : Task} (hgo : s.waiting task = false) :
      Moved app s (.turn task) { s with server := s.server.step app task }
  | ready (hsaid : said s.server = true) (hwaits : s.accepted = false) :
      Moved app s .ready { s.callback .onReceiveInitialMetadata with accepted := true }
  | message {frame : Proto.Frame} (hnext : s.server.yielded[s.delivered]? = some frame)
      (haccepted : s.accepted = true) :
      Moved app s .message
        { s.callback (.onReceiveMessage frame) with delivered := s.delivered + 1 }
  | close (haccepted : s.accepted = true) (hended : s.server.ended.isSome)
      (hall : s.delivered = s.server.yielded.length) (hopen : s.closed = false) :
      Moved app s .close { s.callback .onRemoteClose with closed := true }

theorem moved_step (app : AsgiApp σ) (s : Bridge context σ) (move : Move) :
    Moved app s move (s.step app move) := by
  cases move with
  | client data endStream => exact .client data endStream
  | arrive =>
      simp only [step]
      split
      · rename_i frame hnext
        exact .arrive hnext
      · exact .idle rfl
  | turn task =>
      simp only [step]
      split
      · exact .idle rfl
      · rename_i hgo
        exact .turn (Bool.not_eq_true _ ▸ hgo)
  | ready =>
      simp only [step]
      split
      · rename_i hready
        simp only [Bool.and_eq_true, Bool.not_eq_true'] at hready
        exact .ready hready.1 hready.2
      · exact .idle rfl
  | message =>
      simp only [step]
      split
      · rename_i frame hnext
        split
        · rename_i haccepted
          exact .message hnext haccepted
        · exact .idle rfl
      · exact .idle rfl
  | close =>
      simp only [step]
      split
      · rename_i hclose
        simp only [Bool.and_eq_true, beq_iff_eq, Bool.not_eq_true'] at hclose
        exact .close hclose.1.1.1 hclose.1.1.2 hclose.1.2 hclose.2
      · exact .idle rfl

/-- What the server has sent stays, and is all there is once the call has ended. -/
theorem precedes_step (app : AsgiApp σ) (s : Bridge context σ) (move : Move) :
    Precedes s.server.result (s.step app move).server.result := by
  have hmoved := moved_step app s move
  generalize s.step app move = t at hmoved ⊢
  cases hmoved with
  | turn hgo => exact Connect.precedes_step app s.server _
  | _ => exact Precedes.rfl'

theorem yielded_step (app : AsgiApp σ) (s : Bridge context σ) (move : Move) :
    s.server.yielded <+: (s.step app move).server.yielded :=
  (precedes_step app s move).output.filterMap _

end System

/-! ## What the parts keep -/

/-- The filter's callbacks add to what it has sent, and nothing after the half close. -/
theorem sentMessages_step {s : Filter} (h : Envoy.Orderly s) (e : Envoy.Event) :
    sentMessages s <+: sentMessages (Envoy.step .quiet s e) ∧
      (.closeStream ∈ s.trace → .closeStream ∈ (Envoy.step .quiet s e).trace ∧
        sentMessages (Envoy.step .quiet s e) = sentMessages s) := by
  have hnext := h.step .quiet e
  obtain ⟨more, hmore⟩ := Envoy.step_grows .quiet s e
  have hordered := hnext.ordered
  rw [← hmore] at hordered
  simp only [sentMessages, ← hmore, List.filterMap_append]
  refine ⟨List.prefix_append _ _, fun hclosed => ⟨List.mem_append_left _ hclosed, ?_⟩⟩
  have hnone : more.filterMap sent? = [] := by
    rw [List.filterMap_eq_nil_iff]
    intro b hb
    have hallowed := (List.pairwise_append.mp hordered).2.2 _ hclosed b hb
    have hsends := (hallowed.afterHalfClose rfl).1
    cases b with
    | sendMessage frame endStream => cases hsends
    | _ => rfl
  rw [hnone, List.append_nil]

section Sound

variable {σ : Type} {u : Unicode} {app : AsgiApp σ} {context : ServicerContext}
  {config : WsGrpcBridgeConfig} {headers : HeaderMap} {moves : List Move} {s : Bridge context σ}

/-- The client's stream comes to its end. -/
def Move.Ends (move : Move) : Prop := ∃ data, move = .client data true

/-- The callbacks that these moves have made. -/
structure Callbacks (config : WsGrpcBridgeConfig) (headers : HeaderMap) (moves : List Move)
    (s : Bridge context σ) (events : List Envoy.Event) : Prop where
  filter_eq : s.filter = Envoy.run .quiet (opened config headers ⟨false, true⟩) events
  received_eq : Envoy.received events = clientBytes moves
  heard_eq : Envoy.heard events = s.server.yielded.take s.delivered
  ready_iff : .onReceiveInitialMetadata ∈ events ↔ s.accepted = true
  closed_iff : .onRemoteClose ∈ events ↔ s.closed = true
  told : ∀ frame, .onReceiveMessage frame ∈ events → frame ∈ Envoy.heard events
  kept : .onDestroy ∉ events
  ends : (∃ e ∈ events, e.Ends) → ∃ move ∈ moves, move.Ends

/-- What every connection keeps. -/
structure Sound (u : Unicode) (app : AsgiApp σ) (context : ServicerContext)
    (config : WsGrpcBridgeConfig) (headers : HeaderMap) (moves : List Move) (s : Bridge context σ) :
    Prop where
  callbacks : ∃ events, Callbacks config headers moves s events
  served : Served u app context ((sentMessages s.filter).take s.arrived) (s.complete = true)
    s.server
  arrived_le : s.arrived ≤ (sentMessages s.filter).length
  delivered_le : s.delivered ≤ s.server.yielded.length
  accepted : s.accepted = true → said s.server = true
  unaccepted : s.accepted = false → s.delivered = 0 ∧ s.closed = false
  closed : s.closed = true → s.server.ended.isSome ∧ s.delivered = s.server.yielded.length

theorem sound_start : Sound u app context config headers []
    (start u app context config headers) where
  callbacks := ⟨[], rfl, rfl, rfl, by simp [start], by simp [start], by simp, List.not_mem_nil,
    by simp⟩
  served := by
    rw [start, List.take_zero]
    exact Served.start
  arrived_le := Nat.zero_le _
  delivered_le := Nat.zero_le _
  accepted := fun h => absurd h (by simp [start])
  unaccepted := fun _ => ⟨rfl, rfl⟩
  closed := fun h => absurd h (by simp [start])

namespace Sound

theorem orderly (h : Sound u app context config headers moves s) : Envoy.Orderly s.filter := by
  obtain ⟨events, hevents⟩ := h.callbacks
  rw [hevents.filter_eq]
  exact (Envoy.orderly_opened config headers _).run .quiet events

/-- Once everything has arrived, no more comes. -/
theorem complete_callback (h : Sound u app context config headers moves s) (e : Envoy.Event)
    (hcomplete : s.complete = true) : (s.callback e).complete = true := by
  obtain ⟨-, hclosed⟩ := sentMessages_step h.orderly e
  simp only [complete, callback, Bool.and_eq_true, List.contains_iff_mem, beq_iff_eq]
    at hcomplete ⊢
  obtain ⟨hmem, hsame⟩ := hclosed hcomplete.1
  rw [hsame]
  exact ⟨hmem, hcomplete.2⟩

/-- A callback leaves the server where it is. -/
theorem served_callback (h : Sound u app context config headers moves s) (e : Envoy.Event) :
    Served u app context ((sentMessages (s.callback e).filter).take s.arrived)
      ((s.callback e).complete = true) s.server ∧
    s.arrived ≤ (sentMessages (s.callback e).filter).length := by
  obtain ⟨more, hmore⟩ := (sentMessages_step h.orderly e).1
  have hfilter : (s.callback e).filter = Envoy.step .quiet s.filter e := rfl
  rw [hfilter, ← hmore, List.take_append_of_le_length h.arrived_le, List.length_append]
  exact ⟨h.served.mono (h.complete_callback e), Nat.le_add_right_of_le h.arrived_le⟩

end Sound

/-- A callback with the move it belongs to. -/
theorem Callbacks.concat {events : List Envoy.Event} (h : Callbacks config headers moves s events)
    {e : Envoy.Event} {move : Move} {t : Bridge context σ}
    (hfilter : t.filter = Envoy.step .quiet s.filter e) (hbytes : move.bytes = e.bytes)
    (hheard : Envoy.heard (events ++ [e]) = t.server.yielded.take t.delivered)
    (hready : t.accepted = true ↔ s.accepted = true ∨ e = .onReceiveInitialMetadata)
    (hclosed : t.closed = true ↔ s.closed = true ∨ e = .onRemoteClose)
    (htold : e.message?.isSome → s.accepted = true) (hkept : e ≠ .onDestroy)
    (hends : e.Ends → move.Ends) :
    Callbacks config headers (moves ++ [move]) t (events ++ [e]) where
  filter_eq := by
    rw [hfilter, h.filter_eq]
    simp only [Envoy.run, List.foldl_append, List.foldl_cons, List.foldl_nil]
  received_eq := by
    have hreceived : events.flatMap Envoy.Event.bytes = moves.flatMap Move.bytes := h.received_eq
    simp only [Envoy.received, clientBytes, List.flatMap_append, List.flatMap_singleton, hreceived,
      hbytes]
  heard_eq := hheard
  ready_iff := by
    rw [List.mem_append, List.mem_singleton, h.ready_iff, hready]
    exact or_congr_right eq_comm
  closed_iff := by
    rw [List.mem_append, List.mem_singleton, h.closed_iff, hclosed]
    exact or_congr_right eq_comm
  told := by
    intro frame hmem
    obtain hmem | hmem := List.mem_append.mp hmem
    · exact (Envoy.heard_grows events e).subset (h.told frame hmem)
    · obtain rfl := List.mem_singleton.mp hmem
      rw [Envoy.heard_ready (h.ready_iff.mpr (htold rfl))]
      exact List.mem_append_right _ (List.mem_singleton_self _)
  kept := by
    rw [List.mem_append, List.mem_singleton]
    rintro (hmem | rfl)
    · exact h.kept hmem
    · exact hkept rfl
  ends := by
    rintro ⟨a, ha, hend⟩
    obtain ha | ha := List.mem_append.mp ha
    · obtain ⟨m, hm, hmend⟩ := h.ends ⟨a, ha, hend⟩
      exact ⟨m, List.mem_append_left _ hm, hmend⟩
    · rw [List.mem_singleton.mp ha] at hend
      exact ⟨move, List.mem_append_right _ (List.mem_singleton_self _), hends hend⟩

/-- A move without a callback. -/
theorem Callbacks.other {events : List Envoy.Event} (h : Callbacks config headers moves s events)
    {move : Move} {t : Bridge context σ} (hfilter : t.filter = s.filter) (hbytes : move.bytes = [])
    (hheard : t.server.yielded.take t.delivered = s.server.yielded.take s.delivered)
    (hready : t.accepted = s.accepted) (hclosed : t.closed = s.closed) :
    Callbacks config headers (moves ++ [move]) t events where
  filter_eq := hfilter.trans h.filter_eq
  received_eq := by
    rw [h.received_eq, clientBytes, clientBytes, List.flatMap_append, List.flatMap_singleton,
      hbytes, List.append_nil]
  heard_eq := h.heard_eq.trans hheard.symm
  ready_iff := by rw [hready]; exact h.ready_iff
  closed_iff := by rw [hclosed]; exact h.closed_iff
  told := h.told
  kept := h.kept
  ends := by
    intro hend
    obtain ⟨m, hm, hmend⟩ := h.ends hend
    exact ⟨m, List.mem_append_left _ hm, hmend⟩

namespace Sound

/-- A move that nothing is there for. -/
theorem idle (h : Sound u app context config headers moves s) {move : Move}
    (hbytes : move.bytes = []) : Sound u app context config headers (moves ++ [move]) s where
  callbacks := by
    obtain ⟨events, hevents⟩ := h.callbacks
    exact ⟨events, hevents.other rfl hbytes rfl rfl rfl⟩
  served := h.served
  arrived_le := h.arrived_le
  delivered_le := h.delivered_le
  accepted := h.accepted
  unaccepted := h.unaccepted
  closed := h.closed

theorem client (h : Sound u app context config headers moves s) (data : Bytes)
    (endStream : Bool) : Sound u app context config headers (moves ++ [.client data endStream])
      (s.callback (.decodeData data endStream)) where
  callbacks := by
    obtain ⟨events, hevents⟩ := h.callbacks
    refine ⟨_, hevents.concat (e := .decodeData data endStream) rfl rfl ?_ (by simp [callback])
      (by simp [callback]) (by rintro ⟨⟩) (by simp) ?_⟩
    · rw [Envoy.heard_other events rfl]
      exact hevents.heard_eq
    · rintro ⟨d, hd⟩
      obtain ⟨rfl, rfl⟩ := Envoy.Event.decodeData.inj hd
      exact ⟨data, rfl⟩
  served := (h.served_callback _).1
  arrived_le := (h.served_callback _).2
  delivered_le := h.delivered_le
  accepted := h.accepted
  unaccepted := h.unaccepted
  closed := h.closed

theorem arrive (h : Sound u app context config headers moves s) {frame : Proto.Frame}
    (hnext : (sentMessages s.filter)[s.arrived]? = some frame) :
    Sound u app context config headers (moves ++ [.arrive])
      { s with server := s.server.feed [frame], arrived := s.arrived + 1 } where
  callbacks := by
    obtain ⟨events, hevents⟩ := h.callbacks
    exact ⟨events, hevents.other rfl rfl rfl rfl rfl⟩
  served := by
    obtain ⟨hlt, hframe⟩ := List.getElem?_eq_some_iff.mp hnext
    have hopen : ¬ s.complete = true := by
      simp only [complete, Bool.and_eq_true, beq_iff_eq]
      omega
    have htake : (sentMessages s.filter).take (s.arrived + 1) =
        (sentMessages s.filter).take s.arrived ++ [frame] := by
      rw [List.take_succ_eq_append_getElem hlt, hframe]
    simp only [htake]
    exact h.served.arrive hopen [frame]
  arrived_le := (List.getElem?_eq_some_iff.mp hnext).1
  delivered_le := h.delivered_le
  accepted := h.accepted
  unaccepted := h.unaccepted
  closed := h.closed

/-- What the server has put out so far. -/
theorem turn (h : Sound u app context config headers moves s) {task : Task}
    (hgo : s.waiting task = false) : Sound u app context config headers (moves ++ [.turn task])
      { s with server := s.server.step app task } := by
  have hprecedes := Connect.precedes_step app s.server task
  have hyielded : s.server.yielded <+: (s.server.step app task).yielded :=
    hprecedes.output.filterMap _
  have hover : s.server.ended.isSome → (s.server.step app task).ended = s.server.ended ∧
      (s.server.step app task).yielded = s.server.yielded := by
    intro hended
    have heq := hprecedes.ended hended
    exact ⟨congrArg Prod.snd heq, congrArg (fun r => r.1.filterMap Python.Ws.Output.frame?) heq⟩
  refine ⟨?_, ?_, h.arrived_le, Nat.le_trans h.delivered_le hyielded.length_le, ?_, h.unaccepted,
    ?_⟩
  · obtain ⟨events, hevents⟩ := h.callbacks
    refine ⟨events, hevents.other rfl rfl ?_ rfl rfl⟩
    obtain ⟨more, hmore⟩ := hyielded
    simp only [← hmore]
    exact List.take_append_of_le_length h.delivered_le
  · apply h.served.turn
    rintro rfl hempty
    simpa [waiting, hempty] using hgo
  · intro haccepted
    have hsaid := h.accepted haccepted
    simp only [said, Bool.or_eq_true, Bool.not_eq_true', List.isEmpty_eq_false_iff] at hsaid ⊢
    obtain houtput | hended := hsaid
    · refine .inl fun hnil => houtput ?_
      exact List.prefix_nil.mp (hnil ▸ hprecedes.output)
    · exact .inr ((hover hended).1 ▸ hended)
  · intro hclosed
    obtain ⟨hended, hall⟩ := h.closed hclosed
    obtain ⟨hsame, hframes⟩ := hover hended
    simp only [hsame, hframes]
    exact ⟨hended, hall⟩

theorem ready (h : Sound u app context config headers moves s)
    (hsaid : said s.server = true) : Sound u app context config headers (moves ++ [.ready])
      { s.callback .onReceiveInitialMetadata with accepted := true } where
  callbacks := by
    obtain ⟨events, hevents⟩ := h.callbacks
    refine ⟨_, hevents.concat (e := .onReceiveInitialMetadata) rfl rfl ?_ (by simp)
      (by simp [callback]) (by rintro ⟨⟩) (by simp) (by rintro ⟨d, ⟨⟩⟩)⟩
    rw [Envoy.heard_other events rfl]
    exact hevents.heard_eq
  served := (h.served_callback _).1
  arrived_le := (h.served_callback _).2
  delivered_le := h.delivered_le
  accepted := fun _ => hsaid
  unaccepted := fun haccepted => absurd haccepted (by simp)
  closed := h.closed

theorem message (h : Sound u app context config headers moves s) {frame : Proto.Frame}
    (hnext : s.server.yielded[s.delivered]? = some frame) (haccepted : s.accepted = true) :
    Sound u app context config headers (moves ++ [.message])
      { s.callback (.onReceiveMessage frame) with delivered := s.delivered + 1 } := by
  obtain ⟨hlt, hframe⟩ := List.getElem?_eq_some_iff.mp hnext
  refine ⟨?_, (h.served_callback _).1, (h.served_callback _).2, hlt, h.accepted, ?_, ?_⟩
  · obtain ⟨events, hevents⟩ := h.callbacks
    refine ⟨_, hevents.concat (e := .onReceiveMessage frame) rfl rfl ?_ (by simp [callback])
      (by simp [callback]) (fun _ => haccepted) (by simp) (by rintro ⟨d, ⟨⟩⟩)⟩
    rw [Envoy.heard_ready (hevents.ready_iff.mpr haccepted), hevents.heard_eq]
    simp only [callback, List.take_succ_eq_append_getElem hlt, hframe]
    rfl
  · intro hnot
    rw [callback, haccepted] at hnot
    cases hnot
  · intro hclosed
    have hall := (h.closed hclosed).2
    omega

theorem close (h : Sound u app context config headers moves s)
    (haccepted : s.accepted = true) (hended : s.server.ended.isSome)
    (hall : s.delivered = s.server.yielded.length) :
    Sound u app context config headers (moves ++ [.close])
      { s.callback .onRemoteClose with closed := true } where
  callbacks := by
    obtain ⟨events, hevents⟩ := h.callbacks
    refine ⟨_, hevents.concat (e := .onRemoteClose) rfl rfl ?_ (by simp [callback])
      (by simp) (by rintro ⟨⟩) (by simp) (by rintro ⟨d, ⟨⟩⟩)⟩
    rw [Envoy.heard_other events rfl]
    exact hevents.heard_eq
  served := (h.served_callback _).1
  arrived_le := (h.served_callback _).2
  delivered_le := h.delivered_le
  accepted := h.accepted
  unaccepted := by
    intro hnot
    rw [callback, haccepted] at hnot
    cases hnot
  closed := fun _ => ⟨hended, hall⟩

/-- Every move. -/
theorem step (h : Sound u app context config headers moves s) (move : Move) :
    Sound u app context config headers (moves ++ [move]) (s.step app move) := by
  have hmoved := moved_step app s move
  generalize s.step app move = t at hmoved ⊢
  cases hmoved with
  | idle hbytes => exact h.idle hbytes
  | client data endStream => exact h.client data endStream
  | arrive hnext => exact h.arrive hnext
  | turn hgo => exact h.turn hgo
  | ready hsaid _ => exact h.ready hsaid
  | message hnext haccepted => exact h.message hnext haccepted
  | close haccepted hended hall _ => exact h.close haccepted hended hall

theorem run (h : Sound u app context config headers moves s) (more : List Move) :
    Sound u app context config headers (moves ++ more) (s.run app more) := by
  induction more generalizing moves s with
  | nil => rwa [List.append_nil]
  | cons move more ih =>
      have hrest := ih (h.step move)
      rw [List.append_assoc, List.singleton_append] at hrest
      exact hrest

end Sound

end Sound

end Bridge

end Grpcgi
