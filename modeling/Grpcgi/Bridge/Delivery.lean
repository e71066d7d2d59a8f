import Grpcgi.Bridge.Acceptance

/-!
# What a connection comes to

A connection whose app begins is transparent. Once the client has sent its frames, every
fair schedule brings it everything that the app sends when it runs directly on the messages
that the filter forwards, and the Close if the call ends there: the filter is accepted, the
messages are sent and arrive, the pump reads them, the app and the loop have their turns,
and the frames come back. Each of these stages takes a number of rounds that the schedule has
no part in.
-/

namespace Grpcgi

open Envoy (FromServer HeaderMap Holds Readable WsGrpcBridgeConfig isWebSocketUpgrade messageOf
  relay relayedBy streamEffects written)
open Pipeline (Leads Line Precedes Stable)
open Python.Ws (AsgiApp Connect ServicerContext Task connect tasks unreadable)
open WebSocket (Frame encodeAll)

/-- What is assumed of the client: an upgrade request, frames, and perhaps the beginning of
another one. -/
structure Client (headers : HeaderMap) (frames : List Frame) (tail : Bytes) : Prop where
  upgrade : isWebSocketUpgrade headers = true
  cutOff : WebSocket.Partial tail
  length : (encodeAll frames ++ tail).length < 2 ^ 32

/-- The client has sent a Close. -/
def HasClosed (frames : List Frame) : Prop := ∃ f ∈ frames, f.IsClose

instance (frames : List Frame) : Decidable (HasClosed frames) :=
  inferInstanceAs (Decidable (∃ f ∈ frames, f.IsClose))

/-- The frames for the server. To the stream of a client that has not closed belongs one
more that never comes. -/
def expected (frames : List Frame) : List Proto.Frame :=
  if HasClosed frames then forwardedMessages frames else forwardedMessages frames ++ [unreadable]

theorem forwardedMessages_expected (frames : List Frame) :
    forwardedMessages frames <+: expected frames := by
  simp only [expected]
  split
  · exact List.prefix_rfl
  · exact List.prefix_append _ _

namespace Bridge

section Delivery

variable {σ : Type} {u : Unicode} {app : AsgiApp σ} {context : ServicerContext}
  {config : WsGrpcBridgeConfig} {headers : HeaderMap} {frames : List Frame} {tail : Bytes}
  {s : Bridge context σ}

/-- A move of the client. -/
def Move.FromClient (move : Move) : Prop := ∃ data endStream, move = .client data endStream

/-- A connection whose client has sent these frames and goes on listening. -/
def Listening (u : Unicode) (app : AsgiApp σ) (context : ServicerContext)
    (config : WsGrpcBridgeConfig) (headers : HeaderMap) (frames : List Frame) (tail : Bytes)
    (s : Bridge context σ) : Prop :=
  ∃ moves, Sound u app context config headers moves s ∧
    clientBytes moves = encodeAll frames ++ tail ∧ ¬ Ended moves

namespace Listening

theorem step (h : Listening u app context config headers frames tail s) {move : Move}
    (hmove : ¬ move.FromClient) :
    Listening u app context config headers frames tail (s.step app move) := by
  obtain ⟨moves, hsound, hbytes, hended⟩ := h
  refine ⟨_, hsound.step move, ?_, ?_⟩
  · have hnone : move.bytes = [] := by
      cases move with
      | client data endStream => exact absurd ⟨data, endStream, rfl⟩ hmove
      | _ => rfl
    rw [clientBytes_concat, hnone, List.append_nil, hbytes]
  · rintro ⟨m, hm, hend⟩
    obtain hm | hm := List.mem_append.mp hm
    · exact hended ⟨m, hm, hend⟩
    · obtain ⟨data, rfl⟩ := hend
      exact hmove ⟨data, true, (List.mem_singleton.mp hm).symm⟩

variable (hclient : Client headers frames tail)

include hclient

theorem sent (h : Listening u app context config headers frames tail s) :
    sentMessages s.filter <+: forwardedMessages frames := by
  obtain ⟨moves, hsound, hbytes, -⟩ := h
  exact (hsound.sent hclient.upgrade hclient.cutOff hbytes hclient.length).1

/-- While the call goes on, an accepted filter has sent everything. -/
theorem all_sent (h : Listening u app context config headers frames tail s)
    (haccepted : s.accepted = true) (hrunning : s.server.ended = none) :
    sentMessages s.filter = forwardedMessages frames ∧
      (HasClosed frames → .closeStream ∈ s.filter.trace) := by
  obtain ⟨moves, hsound, hbytes, hended⟩ := h
  have hread := Envoy.readable_frames hclient.cutOff hclient.length
  rw [← hbytes] at hread
  have hopen : ¬ s.closed = true := by
    intro hclosed
    have hsome := (hsound.closed hclosed).1
    rw [hrunning] at hsome
    cases hsome
  have hphase := hsound.phase hclient.upgrade hread
  have hall := (hphase.relayed_ready haccepted hopen).resolve_left hended
  have hrelay : relay (clientBytes moves) = streamEffects frames := by
    rw [hbytes, relay, (Envoy.scan_frames frames hclient.cutOff).1]
  rw [hrelay] at hall
  refine ⟨?_, fun hclosed => ?_⟩
  · rw [sentMessages_eq, hall, filterMap_streamEffects]
  · have hmem := (closeStream_mem_streamEffects frames).mpr hclosed
    rw [← hall] at hmem
    exact List.mem_of_mem_filter hmem

/-- A stream that is over and has arrived is one that the client closed. -/
theorem of_complete (h : Listening u app context config headers frames tail s)
    (hcomplete : s.complete = true) :
    HasClosed frames ∧ s.arrived = (forwardedMessages frames).length := by
  obtain ⟨moves, hsound, hbytes, hended⟩ := h
  simp only [complete, Bool.and_eq_true, List.contains_iff_mem, beq_iff_eq] at hcomplete
  have hsent := (hsound.sent hclient.upgrade hclient.cutOff hbytes hclient.length).2 hcomplete.1
  obtain ⟨hall, hclosed⟩ := hsent.resolve_left hended
  exact ⟨hclosed, hall ▸ hcomplete.2⟩

theorem expected_arrived (h : Listening u app context config headers frames tail s)
    (hcomplete : s.complete = true) : (expected frames).length ≤ s.arrived := by
  obtain ⟨hclosed, harrived⟩ := h.of_complete hclient hcomplete
  rw [expected, if_pos hclosed, harrived]

theorem sent_expected (h : Listening u app context config headers frames tail s) :
    sentMessages s.filter <+: expected frames :=
  (h.sent hclient).trans (forwardedMessages_expected frames)

/-- The server, with what is still to come, is a call that was given everything at once. -/
theorem reached_start (h : Listening u app context config headers frames tail s) :
    Reached u app context (expected frames) 0 0 s := by
  have hsent := h.sent_expected hclient
  have hcomplete := h.expected_arrived hclient
  obtain ⟨moves, hsound, -, -⟩ := h
  obtain ⟨schedule, hrun, hmore⟩ := hsound.served.run
  have htake : (sentMessages s.filter).take s.arrived = (expected frames).take s.arrived := by
    obtain ⟨more, hmore⟩ := hsent
    rw [← hmore, List.take_append_of_le_length hsound.arrived_le]
  have hahead : ahead (expected frames) s =
      (connect u app context (expected frames)).run app schedule := by
    by_cases hover : s.complete = true
    · have hall := hcomplete hover
      rw [ahead, List.drop_eq_nil_of_le hall, Connect.feed_nil, hrun, htake,
        List.take_of_length_le hall]
    · rw [ahead, hmore hover, htake, List.take_append_drop]
  obtain ⟨n, htracks, -⟩ := (Connect.line_start u app context (expected frames)).run
    (schedule.map Task.turn)
  rw [← Line.view_foldl Connect.line_step] at htracks
  rw [Reached, hahead]
  exact Line.Reached.start htracks

end Listening

/-! ## The stages -/

/-- An accepted connection, with this much done by the app and the loop. -/
structure Going (u : Unicode) (app : AsgiApp σ) (context : ServicerContext)
    (config : WsGrpcBridgeConfig) (headers : HeaderMap) (frames : List Frame) (tail : Bytes)
    (k j : Nat) (s : Bridge context σ) : Prop where
  listening : Listening u app context config headers frames tail s
  accepted : s.accepted = true
  reached : Reached u app context (expected frames) k j s

/-- Everything that the pump is to put has been put. -/
def AllRead (app : AsgiApp σ) (frames : List Frame) (s : Bridge context σ) : Prop :=
  s.server.receiveQueue.history = Line.items (tasks context app) [.connect] (expected frames)

namespace Going

variable {k j : Nat} (hclient : Client headers frames tail)

include hclient

theorem step (h : Going u app context config headers frames tail k j s) {move : Move}
    (hmove : ¬ move.FromClient) :
    Going u app context config headers frames tail k j (s.step app move) :=
  ⟨h.listening.step hmove, accepted_step h.accepted move, reached_step h.reached
    (h.listening.sent_expected hclient) (h.listening.expected_arrived hclient) move⟩

end Going

theorem ended_of_step {move : Move} (h : (s.step app move).server.ended = none) :
    s.server.ended = none := by
  by_contra hsome
  have hended : s.server.ended.isSome := Option.isSome_iff_ne_none.mpr hsome
  have hsame := (precedes_step app s move).ended hended
  have hnone : s.server.ended = none := (congrArg Prod.snd hsame).symm.trans h
  exact hsome hnone

theorem arrived_step (app : AsgiApp σ) (s : Bridge context σ) (move : Move) :
    s.arrived ≤ (s.step app move).arrived := by
  have hmoved := moved_step app s move
  generalize s.step app move = t at hmoved ⊢
  cases hmoved with
  | arrive hnext => exact Nat.le_succ _
  | _ => exact Nat.le_refl _

/-- The messages arrive. -/
def Arriving (u : Unicode) (app : AsgiApp σ) (context : ServicerContext)
    (config : WsGrpcBridgeConfig) (headers : HeaderMap) (frames : List Frame) (tail : Bytes)
    (k : Nat) (s : Bridge context σ) : Prop :=
  Going u app context config headers frames tail 0 0 s ∧
    (s.server.ended = none → min k (forwardedMessages frames).length ≤ s.arrived)

section Stages

variable (hclient : Client headers frames tail)

include hclient

theorem arriving_stable (k : Nat) : Stable (Bridge.step app) (fun move => ¬ move.FromClient)
    (Arriving u app context config headers frames tail k) := by
  rintro s move hmove ⟨hgoing, harrived⟩
  refine ⟨hgoing.step hclient hmove, fun hrunning => ?_⟩
  exact Nat.le_trans (harrived (ended_of_step hrunning)) (arrived_step app s move)

theorem arriving_next (k : Nat) (s : Bridge context σ)
    (h : Arriving u app context config headers frames tail k s) :
    Arriving u app context config headers frames tail (k + 1) (s.step app .arrive) := by
  have hmove : ¬ Move.arrive.FromClient := by rintro ⟨data, endStream, ⟨⟩⟩
  have hstable := arriving_stable hclient k s .arrive hmove h
  refine ⟨hstable.1, fun hrunning => ?_⟩
  have hwas := ended_of_step hrunning
  obtain ⟨hgoing, harrived⟩ := h
  have hsofar := harrived hwas
  have hall := (hgoing.listening.all_sent hclient hgoing.accepted hwas).1
  by_cases hmore : s.arrived < (forwardedMessages frames).length
  · have hnext : (sentMessages s.filter)[s.arrived]? =
        some (forwardedMessages frames)[s.arrived] := by
      rw [hall, List.getElem?_eq_getElem hmore]
    have hstep : (s.step app .arrive).arrived = s.arrived + 1 := by
      simp only [Bridge.step, hnext]
    omega
  · have hmono := arrived_step app s .arrive
    omega

/-- How far the server has come, with the turns of its pump and its app. -/
abbrev Tracked (u : Unicode) (app : AsgiApp σ) (context : ServicerContext)
    (frames : List Frame) (turns m : Nat) (s : Bridge context σ) : Prop :=
  Line.Tracks (tasks context app) [.connect] (expected frames)
    (app.start (Python.Ws.buildScope u context.invocationMetadata)) turns m
    (ahead (expected frames) s).line

/-- The pump reads. -/
def Reading (u : Unicode) (app : AsgiApp σ) (context : ServicerContext)
    (config : WsGrpcBridgeConfig) (headers : HeaderMap) (frames : List Frame) (tail : Bytes)
    (k : Nat) (s : Bridge context σ) : Prop :=
  Going u app context config headers frames tail 0 0 s ∧
    ∃ turns m, Tracked u app context frames turns m s ∧
      (s.server.ended = none → (forwardedMessages frames).length ≤ s.arrived ∧
        (AllRead app frames s ∨ k ≤ turns))

omit hclient in
/-- What has been put stays. -/
theorem allRead_step {turns m : Nat} {move : Move} (h : AllRead app frames s)
    (htracks : Tracked u app context frames turns m (s.step app move)) :
    AllRead app frames (s.step app move) := by
  have hgrows :
      s.server.receiveQueue.history <+: (s.step app move).server.receiveQueue.history := by
    have hmoved := moved_step app s move
    generalize s.step app move = t at hmoved ⊢
    cases hmoved with
    | turn hgo => exact Connect.history_step app s.server _
    | _ => exact List.prefix_rfl
  have hlast : (s.step app move).server.receiveQueue.history <+:
      Line.items (tasks context app) [.connect] (expected frames) := htracks.inbox_prefix
  rw [AllRead] at h
  exact hlast.eq_of_length_le (h ▸ hgrows.length_le)

theorem reading_stable (k : Nat) : Stable (Bridge.step app) (fun move => ¬ move.FromClient)
    (Reading u app context config headers frames tail k) := by
  rintro s move hmove ⟨hgoing, turns, m, htracks, hread⟩
  refine ⟨hgoing.step hclient hmove, ?_⟩
  have hnext : ∃ turns' m', turns ≤ turns' ∧
      Tracked u app context frames turns' m' (s.step app move) := by
    obtain hsame | ⟨task, -, hturn⟩ := ahead_step app (hgoing.listening.sent_expected hclient)
      (hgoing.listening.expected_arrived hclient) move
    · refine ⟨turns, m, Nat.le_refl _, ?_⟩
      rw [Tracked, hsame]
      exact htracks
    · obtain ⟨m', htracks', -, -⟩ := htracks.step task.turn
      refine ⟨turns + [task.turn].count .reader, m', Nat.le_add_right _ _, ?_⟩
      rw [Tracked, hturn, Connect.line_step]
      exact htracks'
  obtain ⟨turns', m', hle, htracks'⟩ := hnext
  refine ⟨turns', m', htracks', fun hrunning => ?_⟩
  obtain ⟨harrived, hdone⟩ := hread (ended_of_step hrunning)
  refine ⟨Nat.le_trans harrived (arrived_step app s move), ?_⟩
  obtain hall | hk := hdone
  · exact .inl (allRead_step hall htracks')
  · exact .inr (Nat.le_trans hk hle)

/-- A pump that waits although everything has arrived has put everything. -/
theorem allRead_of_waiting {k : Nat}
    (h : Reading u app context config headers frames tail k s) (hrunning : s.server.ended = none)
    (hwaits : s.waiting .pump = true) : AllRead app frames s := by
  obtain ⟨hgoing, turns, m, htracks, hread⟩ := h
  obtain ⟨harrived, -⟩ := hread hrunning
  obtain ⟨hall, hclosed⟩ := hgoing.listening.all_sent hclient hgoing.accepted hrunning
  obtain ⟨moves, hsound, -, -⟩ := hgoing.listening
  have harrived_le := hsound.arrived_le
  rw [hall] at harrived_le
  simp only [waiting, Bool.and_eq_true, beq_iff_eq, Bool.not_eq_true'] at hwaits
  obtain ⟨⟨-, hpump⟩, hopen⟩ := hwaits
  have hlistens : ¬ HasClosed frames := by
    intro hclose
    have hcomplete : s.complete = true := by
      simp only [complete, Bool.and_eq_true, List.contains_iff_mem, beq_iff_eq]
      refine ⟨hclosed hclose, ?_⟩
      rw [hall]
      omega
    rw [hopen] at hcomplete
    cases hcomplete
  have hrest : (expected frames).drop s.arrived = [unreadable] := by
    rw [expected, if_neg hlistens, show s.arrived = (forwardedMessages frames).length by omega]
    exact List.drop_left
  have hconserved := htracks.fed.conserved hrunning
  have hfeed : (ahead (expected frames) s).line.feed = some [unreadable] := by
    rw [ahead, hrest]
    change s.server.pump.map (· ++ [unreadable]) = _
    rw [hpump]
    rfl
  have hnone : (tasks context app).reader.total [unreadable] = [] :=
    Python.Ws.total_unreadable []
  rw [hfeed] at hconserved
  change s.server.receiveQueue.history ++ (tasks context app).reader.total [unreadable] = _
    at hconserved
  rw [hnone, List.append_nil] at hconserved
  exact hconserved

theorem reading_next (k : Nat) (s : Bridge context σ)
    (h : Reading u app context config headers frames tail k s) :
    Reading u app context config headers frames tail (k + 1) (s.step app (.turn .pump)) := by
  have hmove : ¬ (Move.turn .pump).FromClient := by rintro ⟨data, endStream, ⟨⟩⟩
  by_cases hwaits : s.waiting .pump = true
  · have hsame : s.step app (.turn .pump) = s := by
      simp only [Bridge.step, hwaits, if_true]
    rw [hsame]
    have hall := allRead_of_waiting hclient h
    obtain ⟨hgoing, turns, m, htracks, hread⟩ := h
    exact ⟨hgoing, turns, m, htracks, fun hrunning => ⟨(hread hrunning).1,
      .inl (hall hrunning hwaits)⟩⟩
  · obtain ⟨hgoing, turns, m, htracks, hread⟩ := h
    have hturn := ahead_turn app (hgoing.listening.expected_arrived hclient)
      (Bool.not_eq_true _ ▸ hwaits)
    obtain ⟨m', htracks', -, -⟩ := htracks.step .reader
    have hnext : Tracked u app context frames (turns + 1) m' (s.step app (.turn .pump)) := by
      rw [Tracked, hturn, Connect.line_step]
      exact htracks'
    refine ⟨hgoing.step hclient hmove, turns + 1, m', hnext, fun hrunning => ?_⟩
    obtain ⟨harrived, hdone⟩ := hread (ended_of_step hrunning)
    refine ⟨Nat.le_trans harrived (arrived_step app s _), ?_⟩
    obtain hall | hk := hdone
    · exact .inl (allRead_step hall hnext)
    · exact .inr (Nat.succ_le_succ hk)

/-- The app and the loop work on what has been read. -/
def Working (u : Unicode) (app : AsgiApp σ) (context : ServicerContext)
    (config : WsGrpcBridgeConfig) (headers : HeaderMap) (frames : List Frame) (tail : Bytes)
    (k j : Nat) (s : Bridge context σ) : Prop :=
  Going u app context config headers frames tail k j s ∧
    (s.server.ended = none → AllRead app frames s)

theorem working_stable (k j : Nat) : Stable (Bridge.step app) (fun move => ¬ move.FromClient)
    (Working u app context config headers frames tail k j) := by
  rintro s move hmove ⟨hgoing, hread⟩
  have hnext := hgoing.step hclient hmove
  refine ⟨hnext, fun hrunning => ?_⟩
  obtain ⟨turns, m, htracks, -⟩ := hnext.reached.tracks
  exact allRead_step (hread (ended_of_step hrunning)) htracks

theorem working_app (k : Nat) (s : Bridge context σ)
    (h : Working u app context config headers frames tail k 0 s) :
    Working u app context config headers frames tail (k + 1) 0 (s.step app (.turn .app)) := by
  have hmove : ¬ (Move.turn .app).FromClient := by rintro ⟨data, endStream, ⟨⟩⟩
  have hstable := working_stable hclient k 0 s _ hmove h
  obtain ⟨hgoing, hread⟩ := h
  exact ⟨⟨hstable.1.listening, hstable.1.accepted, reached_app hgoing.reached
    (hgoing.listening.expected_arrived hclient) hread⟩, hstable.2⟩

omit hclient in
/-- The items that the app puts in some turns on these frames. -/
def itemsFor (u : Unicode) (app : AsgiApp σ) (context : ServicerContext)
    (total : List Proto.Frame) (n : Nat) : List Python.Ws.SendItem :=
  (tasks context app).worker.produced
    (some (app.start (Python.Ws.buildScope u context.invocationMetadata)),
      Line.items (tasks context app) [.connect] total) n

theorem working_consumer (k j : Nat) (s : Bridge context σ)
    (h : Working u app context config headers frames tail k
      (min j (itemsFor u app context (expected frames) k).length) s) :
    Working u app context config headers frames tail k
      (min (j + 1) (itemsFor u app context (expected frames) k).length)
      (s.step app (.turn .consumer)) := by
  have hmove : ¬ (Move.turn .consumer).FromClient := by rintro ⟨data, endStream, ⟨⟩⟩
  have hstable := working_stable hclient k _ s _ hmove h
  by_cases hmore : j < (itemsFor u app context (expected frames) k).length
  · obtain ⟨hgoing, hread⟩ := h
    have hreached := hgoing.reached
    rw [Nat.min_eq_left (by omega)] at hreached ⊢
    exact ⟨⟨hstable.1.listening, hstable.1.accepted, reached_consumer hreached
      (hgoing.listening.expected_arrived hclient) hmore⟩, hstable.2⟩
  · rw [Nat.min_eq_right (by omega)] at hstable ⊢
    exact hstable

end Stages

/-! ## The way back -/

/-- The server has come as far as this call, and so many of its frames have come back. -/
structure Returned (u : Unicode) (app : AsgiApp σ) (context : ServicerContext)
    (config : WsGrpcBridgeConfig) (headers : HeaderMap) (call : Connect context σ) (k : Nat)
    (s : Bridge context σ) : Prop where
  invariant : Invariant u app context config headers s
  accepted : s.accepted = true
  caught : Precedes call.result s.server.result
  delivered : min k call.yielded.length ≤ s.delivered

theorem returned_stable (call : Connect context σ) (k : Nat) :
    Stable (Bridge.step app) (fun move => ¬ move.FromClient)
      (Returned u app context config headers call k) := by
  rintro s move - ⟨hinv, haccepted, hcaught, hdelivered⟩
  refine ⟨hinv.step move, accepted_step haccepted move,
    hcaught.trans (precedes_step app s move), Nat.le_trans hdelivered ?_⟩
  have hmoved := moved_step app s move
  generalize s.step app move = t at hmoved ⊢
  cases hmoved with
  | message hnext _ => exact Nat.le_succ _
  | _ => exact Nat.le_refl _

theorem returned_message (call : Connect context σ) (k : Nat) (s : Bridge context σ)
    (h : Returned u app context config headers call k s) :
    Returned u app context config headers call (k + 1) (s.step app .message) := by
  have hmove : ¬ Move.message.FromClient := by rintro ⟨data, endStream, ⟨⟩⟩
  have hstable := returned_stable call k s .message hmove h
  refine ⟨hstable.invariant, hstable.accepted, hstable.caught, ?_⟩
  have hframes : call.yielded <+: s.server.yielded := h.caught.output.filterMap _
  have hlength := hframes.length_le
  have hsofar := h.delivered
  have hkept := hstable.delivered
  by_cases hmore : s.delivered < s.server.yielded.length
  · have hstep : (s.step app .message).delivered = s.delivered + 1 := by
      simp only [Bridge.step, List.getElem?_eq_getElem hmore, h.accepted, if_true]
    omega
  · have hstep : s.delivered ≤ (s.step app .message).delivered := by
      simp only [Bridge.step, List.getElem?_eq_none (Nat.le_of_not_lt hmore)]
      exact Nat.le_refl _
    omega

theorem closed_mono {move : Move} (h : s.closed = true) : (s.step app move).closed = true := by
  have hmoved := moved_step app s move
  generalize s.step app move = t at hmoved ⊢
  cases hmoved with
  | close _ _ _ _ => rfl
  | _ => exact h

/-- All of it has come back, and the status if the call has ended. -/
def Finished (u : Unicode) (app : AsgiApp σ) (context : ServicerContext)
    (config : WsGrpcBridgeConfig) (headers : HeaderMap) (call : Connect context σ) (k : Nat)
    (s : Bridge context σ) : Prop :=
  Returned u app context config headers call call.yielded.length s ∧
    (call.ended.isSome → k = 0 ∨ s.closed = true)

theorem finished_stable (call : Connect context σ) (k : Nat) :
    Stable (Bridge.step app) (fun move => ¬ move.FromClient)
      (Finished u app context config headers call k) := by
  rintro s move hmove ⟨hreturned, hclosed⟩
  exact ⟨returned_stable call _ s move hmove hreturned,
    fun hended => (hclosed hended).imp id closed_mono⟩

theorem finished_close (call : Connect context σ) (k : Nat) (s : Bridge context σ)
    (h : Finished u app context config headers call k s) :
    Finished u app context config headers call (k + 1) (s.step app .close) := by
  have hmove : ¬ Move.close.FromClient := by rintro ⟨data, endStream, ⟨⟩⟩
  obtain ⟨hreturned, -⟩ := h
  refine ⟨returned_stable call _ s .close hmove hreturned, fun hended => .inr ?_⟩
  have hresult := hreturned.caught.ended hended
  have hend : s.server.ended = call.ended := congrArg Prod.snd hresult
  have hserver : s.server.ended.isSome := hend ▸ hended
  have hframes : s.server.yielded = call.yielded :=
    congrArg (fun r => r.1.filterMap Python.Ws.Output.frame?) hresult
  obtain ⟨moves, hsound⟩ := hreturned.invariant
  have hle := hsound.delivered_le
  have hdelivered := hreturned.delivered
  rw [Nat.min_self, ← hframes] at hdelivered
  have hall : s.delivered = s.server.yielded.length := by omega
  by_cases hclosed : s.closed = true
  · exact closed_mono hclosed
  · simp only [Bridge.step, hreturned.accepted, hserver, hall, beq_self_eq_true,
      Bool.not_eq_true _ ▸ hclosed, Bool.not_false, Bool.and_self, if_true]

/-! ## All the way -/

/-- A fair round in which the client only listens. -/
def FairReply (round : List Move) : Prop := Fair round ∧ ∀ move ∈ round, ¬ move.FromClient

/-- A call on what is forwarded, as a run that the server can be compared with. -/
theorem tracks_call (u : Unicode) (app : AsgiApp σ) (context : ServicerContext)
    (frames : List Frame) {schedule : List Task}
    (hopen : HasClosed frames ∨ schedule.count .pump ≤ (forwardedMessages frames).length) :
    ∃ turns n l, Line.Tracks (tasks context app) [.connect] (expected frames)
        (app.start (Python.Ws.buildScope u context.invocationMetadata)) turns n l ∧
      l.result = ((connect u app context (forwardedMessages frames)).run app schedule).result := by
  obtain ⟨n, htracks, -⟩ := (Connect.line_start u app context (expected frames)).run
    (schedule.map Task.turn)
  rw [← Line.view_foldl Connect.line_step] at htracks
  refine ⟨_, n, _, htracks, ?_⟩
  change ((connect u app context (expected frames)).run app schedule).result = _
  by_cases hclosed : HasClosed frames
  · rw [expected, if_pos hclosed]
  · have hcount : ∀ rest, (connect u app context (forwardedMessages frames)).pump = some rest →
        schedule.count .pump ≤ rest.length := by
      rintro rest hrest
      obtain rfl := Option.some.inj hrest
      exact hopen.resolve_left hclosed
    have hfeed := Connect.run_feed app hcount [unreadable]
    rw [Connect.connect_feed] at hfeed
    rw [expected, if_neg hclosed, hfeed]
    rfl

theorem fairReply_listens (round : List Move) (h : FairReply round) :
    ∀ move ∈ round, ¬ move.FromClient := h.2

/-- An accepted filter sends what it has kept, and all of it arrives. -/
theorem leads_arriving (hclient : Client headers frames tail) :
    Leads (Bridge.step app) FairReply (forwardedMessages frames).length
      (fun s => Listening u app context config headers frames tail s ∧ s.accepted = true)
      (Arriving u app context config headers frames tail (forwardedMessages frames).length) := by
  have harrives : Leads (Bridge.step app) FairReply (forwardedMessages frames).length
      (Arriving u app context config headers frames tail 0)
      (Arriving u app context config headers frames tail (forwardedMessages frames).length) :=
    Leads.climb (arriving_stable hclient) (arriving_next hclient) fairReply_listens
      (fun _ hround => hround.1 .arrive (by simp)) _
  refine harrives.consequence (fun s h => ⟨⟨h.1, h.2, h.1.reached_start hclient⟩, fun _ => ?_⟩)
    fun _ h => h
  rw [Nat.zero_min]
  exact Nat.zero_le _

/-- The pump reads what has arrived. -/
theorem leads_reading (hclient : Client headers frames tail) :
    Leads (Bridge.step app) FairReply ((expected frames).length + 1)
      (Arriving u app context config headers frames tail (forwardedMessages frames).length)
      (Working u app context config headers frames tail 0 0) := by
  have hreads : Leads (Bridge.step app) FairReply ((expected frames).length + 1)
      (Reading u app context config headers frames tail 0)
      (Reading u app context config headers frames tail ((expected frames).length + 1)) :=
    Leads.climb (reading_stable hclient) (reading_next hclient) fairReply_listens
      (fun _ hround => hround.1 (.turn .pump) (by simp)) _
  refine hreads.consequence (fun s ⟨hgoing, harrived⟩ => ⟨hgoing, ?_⟩)
    fun s ⟨hgoing, turns, m, htracks, hread⟩ => ⟨hgoing, fun hrunning => ?_⟩
  · obtain ⟨turns, m, htracks, -⟩ := hgoing.reached.tracks
    refine ⟨turns, m, htracks, fun hrunning => ⟨?_, .inr (Nat.zero_le _)⟩⟩
    have hall := harrived hrunning
    rwa [Nat.min_self] at hall
  · obtain hall | hturns := (hread hrunning).2
    · exact hall
    · exact htracks.inbox_complete hrunning hturns

/-- The app and the loop have their turns. -/
theorem leads_working (hclient : Client headers frames tail) (n : Nat) :
    let puts := (itemsFor u app context (expected frames) n).length
    Leads (Bridge.step app) FairReply (n + puts)
      (Working u app context config headers frames tail 0 0)
      (Working u app context config headers frames tail n puts) := by
  intro puts
  have happ : Leads (Bridge.step app) FairReply n
      (Working u app context config headers frames tail 0 0)
      (Working u app context config headers frames tail n (min 0 puts)) := by
    rw [Nat.zero_min]
    exact Leads.climb (P := fun k => Working u app context config headers frames tail k 0)
      (fun k => working_stable hclient k 0) (working_app hclient) fairReply_listens
      (fun _ hround => hround.1 (.turn .app) (by simp)) n
  have hloop : Leads (Bridge.step app) FairReply puts
      (Working u app context config headers frames tail n (min 0 puts))
      (Working u app context config headers frames tail n (min puts puts)) :=
    Leads.climb (P := fun j => Working u app context config headers frames tail n (min j puts))
      (fun j => working_stable hclient n _) (working_consumer hclient n) fairReply_listens
      (fun _ hround => hround.1 (.turn .consumer) (by simp)) puts
  rw [Nat.min_self] at hloop
  exact happ.trans hloop

/-- The frames come back, and the status. -/
theorem leads_returning (call : Connect context σ) :
    Leads (Bridge.step app) FairReply (call.yielded.length + 1)
      (Returned u app context config headers call 0)
      (Finished u app context config headers call 1) := by
  have hreturns : Leads (Bridge.step app) FairReply call.yielded.length
      (Returned u app context config headers call 0)
      (Returned u app context config headers call call.yielded.length) :=
    Leads.climb (returned_stable call) (returned_message call) fairReply_listens
      (fun _ hround => hround.1 .message (by simp)) _
  have hcloses : Leads (Bridge.step app) FairReply 1
      (Finished u app context config headers call 0)
      (Finished u app context config headers call 1) :=
    Leads.climb (finished_stable call) (finished_close call) fairReply_listens
      (fun _ hround => hround.1 .close (by simp)) 1
  exact hreturns.trans (hcloses.consequence (fun s h => ⟨h, fun _ => .inl rfl⟩) fun _ h => h)

theorem leads_finished (hclient : Client headers frames tail)
    (hfirst : SpeaksFirst u app context) {schedule : List Task}
    (hopen : HasClosed frames ∨ schedule.count .pump ≤ (forwardedMessages frames).length) :
    ∃ n, Leads (Bridge.step app) FairReply n
      (Listening u app context config headers frames tail)
      (Finished u app context config headers
        ((connect u app context (forwardedMessages frames)).run app schedule) 1) := by
  have hlistens : Stable (Bridge.step app) (fun move => ¬ move.FromClient)
      (Listening u app context config headers frames tail) := fun s move hmove h => h.step hmove
  obtain ⟨n₀, haccepted⟩ : ∃ n, Leads (Bridge.step app) Fair n
      (Invariant u app context config headers) (fun s => s.accepted = true) :=
    leads_accepted hclient.upgrade hfirst
  have haccepts : Leads (Bridge.step app) FairReply n₀
      (Listening u app context config headers frames tail)
      (fun s => Listening u app context config headers frames tail s ∧ s.accepted = true) := by
    refine ((haccepted.of_fair fun _ h => h.1).and_stable hlistens
      fairReply_listens).consequence (fun s h => ⟨h, ?_⟩) fun _ h => h
    obtain ⟨moves, hsound, -, -⟩ := h
    exact ⟨moves, hsound⟩
  obtain ⟨turns, n, l, htracks, hresult⟩ := tracks_call u app context frames hopen
  generalize (connect u app context (forwardedMessages frames)).run app schedule = call
    at hresult ⊢
  have hreturns : Leads (Bridge.step app) FairReply (call.yielded.length + 1)
      (Working u app context config headers frames tail n
        (itemsFor u app context (expected frames) n).length)
      (Finished u app context config headers call 1) := by
    refine (leads_returning call).consequence (fun s ⟨hgoing, hworked⟩ => ?_) fun _ h => h
    have hprecedes := Line.Reached.precedes htracks hgoing.reached
    rw [hresult] at hprecedes
    obtain ⟨moves, hsound, -, -⟩ := hgoing.listening
    refine ⟨⟨moves, hsound⟩, hgoing.accepted, hprecedes, ?_⟩
    rw [Nat.zero_min]
    exact Nat.zero_le _
  exact ⟨_, (((haccepts.trans (leads_arriving hclient)).trans (leads_reading hclient)).trans
    (leads_working hclient n)).trans hreturns⟩

end Delivery

theorem clientBytes_listening {moves more : List Move}
    (h : ∀ move ∈ more, ¬ move.FromClient) : clientBytes (moves ++ more) = clientBytes moves := by
  have hnone : more.flatMap Move.bytes = [] := by
    rw [List.flatMap_eq_nil_iff]
    intro move hmem
    cases move with
    | client data endStream => exact absurd ⟨data, endStream, rfl⟩ (h _ hmem)
    | _ => rfl
  rw [clientBytes, List.flatMap_append, hnone, List.append_nil, clientBytes]

/-- An app that begins runs behind the filter as it does on its own: whatever a call on the
forwarded messages has yielded under some schedule, the client has under every fair one, and
when that call has ended it has nothing else, and the Close. -/
theorem bridge_transparent {σ : Type} (u : Unicode) (app : AsgiApp σ)
    (context : ServicerContext) (config : WsGrpcBridgeConfig) {headers : HeaderMap}
    {frames : List Frame} {tail : Bytes} (hclient : Client headers frames tail)
    (hfirst : SpeaksFirst u app context) {schedule : List Task}
    (hopen : HasClosed frames ∨ schedule.count .pump ≤ (forwardedMessages frames).length) :
    let call := (connect u app context (forwardedMessages frames)).run app schedule
    ∃ enough, ∀ (moves : List Move) (rounds : List (List Move)),
      clientBytes moves = encodeAll frames ++ tail → ¬ Ended moves → enough ≤ rounds.length →
      (∀ round ∈ rounds, FairReply round) →
        let s := (start u app context config headers).run app (moves ++ rounds.flatten)
        (∀ frame ∈ s.server.yielded, Holds frame.payload) →
          ∃ replies : List Frame,
            written s.filter = replies.map (fun f => (f.encode, decide f.IsClose)) ∧
            (∀ f ∈ replies, FromServer f) ∧ replies.Pairwise (fun f _ => ¬ f.IsClose) ∧
            call.yielded <+: replies.filterMap messageOf ∧
            (call.ended.isSome → replies.filterMap messageOf = call.yielded ∧
              ∃ f ∈ replies, f.IsClose) := by
  intro call
  obtain ⟨n, hleads⟩ : ∃ n, Leads (Bridge.step app) FairReply n
      (Listening u app context config headers frames tail)
      (Finished u app context config headers call 1) := leads_finished hclient hfirst hopen
  refine ⟨n, fun moves rounds hbytes hended hlength hrounds => ?_⟩
  have hsound := sound_run u app context config headers moves
  have hfinished := hleads.le (finished_stable call 1) (fun _ hround => hround.2)
    ⟨moves, hsound, hbytes, hended⟩ hlength hrounds
  have hquiet : ∀ move ∈ rounds.flatten, ¬ move.FromClient := by
    intro move hmem
    obtain ⟨round, hround, hmem⟩ := List.mem_flatten.mp hmem
    exact (hrounds round hround).2 move hmem
  have hread := Envoy.readable_frames hclient.cutOff hclient.length
  rw [← hbytes, ← clientBytes_listening hquiet] at hread
  have hrun : (start u app context config headers).run app (moves ++ rounds.flatten) =
      rounds.flatten.foldl (Bridge.step app)
        ((start u app context config headers).run app moves) :=
    List.foldl_append
  intro s hholds
  obtain ⟨replies, hwrote⟩ := wrote_run hclient.upgrade hread hholds
  have hs : s = rounds.flatten.foldl (Bridge.step app)
    ((start u app context config headers).run app moves) := hrun
  rw [← hs] at hfinished
  obtain ⟨hreturned, hclosed⟩ := hfinished
  have hframes : call.yielded <+: s.server.yielded := hreturned.caught.output.filterMap _
  have hdelivered := hreturned.delivered
  rw [Nat.min_self] at hdelivered
  refine ⟨replies, hwrote.written_eq, hwrote.server, hwrote.last, ?_, fun hend => ⟨?_, ?_⟩⟩
  · rw [hwrote.messages]
    exact List.prefix_take_iff.mpr ⟨hframes, hdelivered⟩
  · have hsame : s.server.yielded = call.yielded :=
      congrArg (fun r => r.1.filterMap Python.Ws.Output.frame?) (hreturned.caught.ended hend)
    have hmessages : replies.filterMap messageOf = s.server.yielded.take s.delivered :=
      hwrote.messages
    rw [hmessages, hsame, List.take_of_length_le hdelivered]
  · exact hwrote.closed_iff.mpr ((hclosed hend).resolve_left Nat.one_ne_zero)

/-- A message and a Close: the chat app answers the message and closes. -/
theorem bridge_transparent_chat :
    let frames : List Frame := [⟨true, 0, 1, none, .short, [0x48, 0x69], by decide⟩,
      ⟨true, 0, 8, none, .short, [], by decide⟩]
    let call := (connect .ascii chatApp (.taking []) (forwardedMessages frames)).run chatApp
      [.pump, .pump, .app, .app, .app, .app, .app, .app, .consumer, .consumer, .consumer]
    call.yielded = [⟨[0x48, 0x69], false⟩] ∧ call.ended.isSome ∧
    ∃ enough, ∀ (moves : List Move) (rounds : List (List Move)),
      clientBytes moves = encodeAll frames ++ [] → ¬ Ended moves → enough ≤ rounds.length →
      (∀ round ∈ rounds, FairReply round) →
        let s := (start .ascii chatApp (.taking []) ⟨"ws".toList, []⟩
          [("upgrade".toList, "websocket".toList)]).run chatApp (moves ++ rounds.flatten)
        (∀ frame ∈ s.server.yielded, Holds frame.payload) →
          ∃ replies : List Frame,
            written s.filter = replies.map (fun f => (f.encode, decide f.IsClose)) ∧
            (∀ f ∈ replies, FromServer f) ∧ replies.Pairwise (fun f _ => ¬ f.IsClose) ∧
            call.yielded <+: replies.filterMap messageOf ∧
            (call.ended.isSome → replies.filterMap messageOf = call.yielded ∧
              ∃ f ∈ replies, f.IsClose) :=
  ⟨by decide, by decide, bridge_transparent .ascii chatApp (.taking []) ⟨"ws".toList, []⟩
    ⟨by decide, WebSocket.partial_nil, by decide⟩ ⟨[.app, .consumer], by decide, by decide⟩
    (.inl (by decide))⟩

end Bridge

end Grpcgi
