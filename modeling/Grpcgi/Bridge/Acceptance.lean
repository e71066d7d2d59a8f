import Grpcgi.Bridge.Order
import Grpcgi.Pipeline.Rounds
import Grpcgi.Python.Echo

/-!
# When a connection is accepted

The filter hands nothing of the client's on before the initial metadata has come, and the
initial metadata comes with the first thing that the server says. So it is the app that
has to begin: it names a subprotocol, sends a message or leaves, on nothing but
`websocket.connect`. An app that does is accepted; for one that waits for the client
first, both sides wait, whatever happens.
-/

namespace Grpcgi

open Envoy (HeaderMap Waiting WsGrpcBridgeConfig isWebSocketUpgrade opened written)
open Python.Ws (AsgiApp Connect ServicerContext Task connect tasks wsEchoApp)
open Pipeline (Leads Line Precedes Stable)

namespace Envoy

/-- A filter that waits keeps what the client sends and writes nothing. -/
theorem waiting_run (config : WsGrpcBridgeConfig) {headers : HeaderMap}
    (hupgrade : isWebSocketUpgrade headers = true) {events : List Event}
    (hready : .onReceiveInitialMetadata ∉ events) (hremote : .onRemoteClose ∉ events)
    (hkept : .onDestroy ∉ events) :
    Waiting (run .quiet (opened config headers ⟨false, true⟩) events) (received events) ∧
      written (run .quiet (opened config headers ⟨false, true⟩) events) = [] := by
  induction events using List.reverseRecOn with
  | nil =>
      refine ⟨waiting_opened config hupgrade, ?_⟩
      simp only [run, List.foldl_nil, opened, decodeHeaders, hupgrade, if_true, startGrpcStream]
      rfl
  | append_singleton events e ih =>
      simp only [List.mem_append, List.mem_singleton, not_or] at hready hremote hkept
      obtain ⟨hwaiting, hwritten⟩ := ih hready.1 hremote.1 hkept.1
      have hreceived : received (events ++ [e]) = received events ++ e.bytes := by
        simp [received]
      have hconcat : run .quiet (opened config headers ⟨false, true⟩) (events ++ [e]) =
          step .quiet (run .quiet (opened config headers ⟨false, true⟩) events) e := by
        simp only [run, List.foldl_append, List.foldl_cons, List.foldl_nil]
      rw [hconcat, hreceived]
      generalize run .quiet (opened config headers ⟨false, true⟩) events = s at hwaiting hwritten
      cases e with
      | decodeData data endStream =>
          refine ⟨hwaiting.step_data data endStream, ?_⟩
          simp only [step, hwaiting.fault, Option.isSome_none, Bool.false_eq_true, if_false,
            decodeData, hwaiting.state]
          exact hwritten
      | onReceiveInitialMetadata => exact absurd rfl hready.2
      | onReceiveMessage message =>
          refine ⟨hwaiting.step rfl (by simp), ?_⟩
          simp only [step, hwaiting.fault, Option.isSome_none, Bool.false_eq_true, if_false,
            hwaiting.grpcCallbacks, if_true, onReceiveMessage, hwaiting.state, ne_eq, reduceCtorEq,
            not_false_eq_true, and_self]
          exact hwritten
      | onRemoteClose => exact absurd rfl hremote.2
      | encodeHeaders =>
          refine ⟨hwaiting.step rfl (by simp), ?_⟩
          simp only [step, hwaiting.fault, Option.isSome_none, Bool.false_eq_true, if_false]
          rw [written, emit_trace, List.filterMap_append]
          exact (List.append_nil _).trans hwritten
      | onDestroy => exact absurd rfl hkept.2

end Envoy

namespace Bridge

section Acceptance

variable {σ : Type} {u : Unicode} {app : AsgiApp σ} {context : ServicerContext}
  {config : WsGrpcBridgeConfig} {headers : HeaderMap} {moves : List Move} {s : Bridge context σ}

/-- With nothing but its `websocket.connect` the app says something to the client, or
leaves. -/
def SpeaksFirst (u : Unicode) (app : AsgiApp σ) (context : ServicerContext) : Prop :=
  ∃ schedule : List Task, .pump ∉ schedule ∧
    said ((connect u app context []).run app schedule) = true

/-! ## Before the initial metadata -/

theorem Sound.waits (h : Sound u app context config headers moves s)
    (hupgrade : isWebSocketUpgrade headers = true) (hwaits : s.accepted = false) :
    Waiting s.filter (clientBytes moves) ∧ written s.filter = [] := by
  obtain ⟨events, hevents⟩ := h.callbacks
  have hopen := (h.unaccepted hwaits).2
  have hready : .onReceiveInitialMetadata ∉ events := by
    rw [hevents.ready_iff, hwaits]
    exact Bool.false_ne_true
  have hremote : .onRemoteClose ∉ events := by
    rw [hevents.closed_iff, hopen]
    exact Bool.false_ne_true
  rw [hevents.filter_eq, ← hevents.received_eq]
  exact Envoy.waiting_run config hupgrade hready hremote hevents.kept

/-- Nothing has been sent, and nothing has arrived. -/
theorem Sound.unsent (h : Sound u app context config headers moves s)
    (hupgrade : isWebSocketUpgrade headers = true) (hwaits : s.accepted = false) :
    sentMessages s.filter = [] ∧ s.arrived = 0 ∧ s.complete = false := by
  have hwaiting := (h.waits hupgrade hwaits).1
  have hnone : sentMessages s.filter = [] := by
    rw [sentMessages_eq, Envoy.relayedBy, hwaiting.relayed]
    rfl
  have harrived := h.arrived_le
  rw [hnone] at harrived
  refine ⟨hnone, Nat.le_zero.mp harrived, ?_⟩
  have hopen : .closeStream ∉ s.filter.trace := by
    intro hmem
    have hrelayed : .closeStream ∈ s.filter.trace.filter Envoy.Effect.relayed :=
      List.mem_filter.mpr ⟨hmem, rfl⟩
    rw [hwaiting.relayed] at hrelayed
    cases hrelayed
  simp [complete, hopen]

/-! ## Nothing happens without the app -/

/-- A call to which no frame comes and whose pump has no turn. -/
def Unfed (u : Unicode) (app : AsgiApp σ) (context : ServicerContext)
    (s : Connect context σ) : Prop :=
  ∃ schedule : List Task, .pump ∉ schedule ∧ s = (connect u app context []).run app schedule

theorem Unfed.step {t : Connect context σ} (h : Unfed u app context t) {task : Task}
    (hpump : task ≠ .pump) : Unfed u app context (t.step app task) := by
  obtain ⟨schedule, hnone, rfl⟩ := h
  refine ⟨schedule ++ [task], ?_, (Connect.run_concat app schedule task _).symm⟩
  simp [hnone, Ne.symm hpump]

/-- Its pump is where it was, or cancelled. -/
theorem Unfed.pump {t : Connect context σ} (h : Unfed u app context t) :
    t.pump = some [] ∨ t.pump = none := by
  obtain ⟨schedule, hnone, rfl⟩ := h
  induction schedule using List.reverseRecOn with
  | nil => exact .inl rfl
  | append_singleton schedule task ih =>
      simp only [List.mem_append, List.mem_singleton, not_or] at hnone
      have ih := ih hnone.1
      rw [Connect.run_concat]
      generalize (connect u app context []).run app schedule = t at ih ⊢
      cases task with
      | pump => exact absurd rfl hnone.2
      | app => rwa [Connect.step, (Connect.runApp_keeps app t).1]
      | consumer => exact ih
      | cancelPump =>
          simp only [Connect.step]
          split
          · exact .inr rfl
          · exact ih
      | cancelApp =>
          simp only [Connect.step]
          split
          · exact ih
          · exact ih

/-- Every move, as long as the connection is not accepted. -/
theorem Sound.unfed (h : Sound u app context config headers moves s)
    (hupgrade : isWebSocketUpgrade headers = true) (hwaits : s.accepted = false)
    (hserver : Unfed u app context s.server) (move : Move) :
    Unfed u app context (s.step app move).server := by
  obtain ⟨hnone, -, hopen⟩ := h.unsent hupgrade hwaits
  have hmoved := moved_step app s move
  generalize s.step app move = t at hmoved ⊢
  cases hmoved with
  | arrive hnext =>
      rw [hnone] at hnext
      cases hnext
  | @turn task hgo =>
      by_cases hpump : task = .pump
      · subst hpump
        obtain hempty | hover := hserver.pump
        · simp [waiting, hempty, hopen] at hgo
        · rw [Connect.step, Connect.runPump_over hover]
          exact hserver
      · exact hserver.step hpump
  | _ => exact hserver

theorem unaccepted_step {move : Move} (h : (s.step app move).accepted = false) :
    s.accepted = false := by
  have hmoved := moved_step app s move
  generalize s.step app move = t at hmoved h
  cases hmoved with
  | ready hsaid hwaits => exact hwaits
  | _ => exact h

theorem accepted_step (h : s.accepted = true) (move : Move) :
    (s.step app move).accepted = true := by
  by_contra hwaits
  rw [unaccepted_step (Bool.not_eq_true _ ▸ hwaits)] at h
  cases h

theorem unfed_run (hupgrade : isWebSocketUpgrade headers = true) {moves : List Move}
    (hwaits : ((start u app context config headers).run app moves).accepted = false) :
    Unfed u app context ((start u app context config headers).run app moves).server := by
  induction moves using List.reverseRecOn with
  | nil => exact ⟨[], List.not_mem_nil, rfl⟩
  | append_singleton moves move ih =>
      have hsound := sound_run u app context config headers moves
      rw [run_concat] at hwaits ⊢
      have hbefore := unaccepted_step hwaits
      exact hsound.unfed hupgrade hbefore (ih hbefore) move

/-- A connection is accepted only for an app that begins. -/
theorem speaksFirst_of_accepted (hupgrade : isWebSocketUpgrade headers = true)
    {moves : List Move}
    (haccepted : ((start u app context config headers).run app moves).accepted = true) :
    SpeaksFirst u app context := by
  induction moves using List.reverseRecOn with
  | nil => cases haccepted
  | append_singleton moves move ih =>
      by_cases hbefore : ((start u app context config headers).run app moves).accepted = true
      · exact ih hbefore
      · have hwaits := Bool.not_eq_true _ ▸ hbefore
        have hunfed := unfed_run hupgrade hwaits
        rw [run_concat] at haccepted
        have hmoved := moved_step app ((start u app context config headers).run app moves) move
        generalize (start u app context config headers).run app moves = s at *
        generalize s.step app move = t at hmoved haccepted
        cases hmoved with
        | ready hsaid _ =>
            obtain ⟨schedule, hnone, hserver⟩ := hunfed
            exact ⟨schedule, hnone, hserver ▸ hsaid⟩
        | _ => exact absurd haccepted hbefore

/-! ## The server with the frames that are still to come -/

/-- The server with the frames that have not arrived yet of all these. -/
def ahead (total : List Proto.Frame) (s : Bridge context σ) : Connect context σ :=
  s.server.feed (total.drop s.arrived)

@[simp] theorem ahead_result (total : List Proto.Frame) (s : Bridge context σ) :
    (ahead total s).result = s.server.result := rfl

/-- A turn of a task that need not wait. -/
theorem ahead_turn (app : AsgiApp σ) {total : List Proto.Frame}
    (hall : s.complete = true → total.length ≤ s.arrived) {task : Task}
    (hgo : s.waiting task = false) :
    ahead total (s.step app (.turn task)) = (ahead total s).step app task := by
  simp only [Bridge.step, hgo, Bool.false_eq_true, if_false]
  by_cases hempty : task = .pump ∧ s.server.pump = some []
  · have hcomplete : s.complete = true := by simpa [waiting, hempty] using hgo
    have hnil : total.drop s.arrived = [] := List.drop_eq_nil_of_le (hall hcomplete)
    simp only [ahead, hnil, Connect.feed_nil]
  · exact (Connect.step_feed app (fun htask hpump => hempty ⟨htask, hpump⟩) _).symm

/-- Arrivals make no difference to it, and a turn is a turn. -/
theorem ahead_step (app : AsgiApp σ) {total : List Proto.Frame}
    (hsent : sentMessages s.filter <+: total)
    (hall : s.complete = true → total.length ≤ s.arrived) (move : Move) :
    ahead total (s.step app move) = ahead total s ∨ ∃ task, move = .turn task ∧
      ahead total (s.step app move) = (ahead total s).step app task := by
  by_cases hturn : ∃ task, move = .turn task ∧ s.waiting task = false
  · obtain ⟨task, rfl, hgo⟩ := hturn
    exact .inr ⟨task, rfl, ahead_turn app hall hgo⟩
  · have hmoved := moved_step app s move
    generalize s.step app move = t at hmoved ⊢
    cases hmoved with
    | @arrive frame hnext =>
        left
        obtain ⟨more, rfl⟩ := hsent
        obtain ⟨hlt, hframe⟩ := List.getElem?_eq_some_iff.mp hnext
        have hdrop : (sentMessages s.filter ++ more).drop s.arrived =
            frame :: (sentMessages s.filter ++ more).drop (s.arrived + 1) := by
          rw [← hframe, ← List.getElem_append_left hlt]
          exact List.drop_eq_getElem_cons (by rw [List.length_append]; omega)
        rw [ahead, ahead, hdrop]
        exact Connect.feed_feed _ _ _
    | @turn task hgo => exact absurd ⟨task, rfl, hgo⟩ hturn
    | _ => exact .inl rfl

/-- How far the server has come, for a stream of these frames. -/
abbrev Reached (u : Unicode) (app : AsgiApp σ) (context : ServicerContext)
    (total : List Proto.Frame) (k j : Nat) (s : Bridge context σ) : Prop :=
  Line.Reached (tasks context app) [.connect] total
    (app.start (Python.Ws.buildScope u context.invocationMetadata)) k j (ahead total s).line

section Reached

variable {total : List Proto.Frame} {k j : Nat}

theorem reached_step (h : Reached u app context total k j s)
    (hsent : sentMessages s.filter <+: total)
    (hall : s.complete = true → total.length ≤ s.arrived) (move : Move) :
    Reached u app context total k j (s.step app move) := by
  obtain hsame | ⟨task, -, hturn⟩ := ahead_step app hsent hall move
  · rw [Reached, hsame]
    exact h
  · rw [Reached, hturn, Connect.line_step]
    exact h.step task.turn

theorem reached_app (h : Reached u app context total k j s)
    (hall : s.complete = true → total.length ≤ s.arrived)
    (hread : s.server.ended = none →
      s.server.receiveQueue.history = Line.items (tasks context app) [.connect] total) :
    Reached u app context total (k + 1) j (s.step app (.turn .app)) := by
  rw [Reached, ahead_turn app hall rfl, Connect.line_step]
  exact h.worker hread

theorem reached_consumer (h : Reached u app context total k j s)
    (hall : s.complete = true → total.length ≤ s.arrived)
    (hmore : j < ((tasks context app).worker.produced
      (some (app.start (Python.Ws.buildScope u context.invocationMetadata)),
        Line.items (tasks context app) [.connect] total) k).length) :
    Reached u app context total k (j + 1) (s.step app (.turn .consumer)) := by
  rw [Reached, ahead_turn app hall rfl, Connect.line_step]
  exact h.consumer hmore

end Reached

/-! ## The way to the initial metadata -/

/-- Everything in flight and every task has its turn. -/
def Fair (round : List Move) : Prop :=
  ∀ move ∈ [Move.arrive, .turn .pump, .turn .app, .turn .consumer, .ready, .message, .close],
    move ∈ round

instance (round : List Move) : Decidable (Fair round) :=
  inferInstanceAs (Decidable (∀ move ∈ _, move ∈ round))

/-- What every connection keeps, after some moves. -/
def Invariant (u : Unicode) (app : AsgiApp σ) (context : ServicerContext)
    (config : WsGrpcBridgeConfig) (headers : HeaderMap) (s : Bridge context σ) : Prop :=
  ∃ moves, Sound u app context config headers moves s

theorem Invariant.step (h : Invariant u app context config headers s) (move : Move) :
    Invariant u app context config headers (s.step app move) := by
  obtain ⟨moves, hsound⟩ := h
  exact ⟨_, hsound.step move⟩

theorem said_of_precedes {s t : Connect context σ} (h : Precedes s.result t.result)
    (hsaid : said s = true) : said t = true := by
  simp only [said, Bool.or_eq_true, Bool.not_eq_true', List.isEmpty_eq_false_iff] at hsaid ⊢
  obtain houtput | hended := hsaid
  · refine .inl fun hnil => houtput ?_
    have hbegun : s.responses.output <+: t.responses.output := h.output
    exact List.prefix_nil.mp (hnil ▸ hbegun)
  · have hsame : t.ended = s.ended := congrArg Prod.snd (h.ended hended)
    exact .inr (hsame ▸ hended)

/-- A connection on its way: accepted, or with this much done on `websocket.connect` alone. -/
def Begun (u : Unicode) (app : AsgiApp σ) (context : ServicerContext)
    (config : WsGrpcBridgeConfig) (headers : HeaderMap) (k j : Nat) (s : Bridge context σ) : Prop :=
  Invariant u app context config headers s ∧
    (s.accepted = true ∨ Reached u app context [Python.Ws.unreadable] k j s)

theorem begun_start (hupgrade : isWebSocketUpgrade headers = true)
    (h : Invariant u app context config headers s) :
    Begun u app context config headers 0 0 s := by
  refine ⟨h, ?_⟩
  obtain ⟨moves, hsound⟩ := h
  by_cases haccepted : s.accepted = true
  · exact .inl haccepted
  · right
    obtain ⟨hnone, harrived, hopen⟩ := hsound.unsent hupgrade (Bool.not_eq_true _ ▸ haccepted)
    obtain ⟨schedule, -, hmore⟩ := hsound.served.run
    have hrun := hmore (by simp [hopen]) [Python.Ws.unreadable]
    rw [hnone, List.take_nil, List.nil_append] at hrun
    obtain ⟨n, htracks, -⟩ := (Connect.line_start u app context [Python.Ws.unreadable]).run
      (schedule.map Task.turn)
    rw [← Line.view_foldl Connect.line_step] at htracks
    rw [Reached, ahead, harrived, List.drop_zero, hrun]
    exact Line.Reached.start htracks

theorem begun_stable (hupgrade : isWebSocketUpgrade headers = true) (k j : Nat) :
    Stable (Bridge.step app) (fun _ => True) (Begun u app context config headers k j) := by
  rintro s move - ⟨hinv, h⟩
  refine ⟨hinv.step move, ?_⟩
  by_cases haccepted : (s.step app move).accepted = true
  · exact .inl haccepted
  · right
    have hwaits := unaccepted_step (Bool.not_eq_true _ ▸ haccepted)
    obtain ⟨moves, hsound⟩ := hinv
    obtain ⟨hnone, -, hopen⟩ := hsound.unsent hupgrade hwaits
    have hreached := h.resolve_left (by simp [hwaits])
    exact reached_step hreached (hnone ▸ List.nil_prefix) (by simp [hopen]) move

theorem Invariant.incomplete (h : Invariant u app context config headers s)
    (hupgrade : isWebSocketUpgrade headers = true) (hwaits : ¬ s.accepted = true) :
    ¬ s.complete = true := by
  obtain ⟨moves, hsound⟩ := h
  simp [(hsound.unsent hupgrade (Bool.not_eq_true _ ▸ hwaits)).2.2]

/-- Nothing arrives, so the app has all there is for it. -/
theorem begun_app (hupgrade : isWebSocketUpgrade headers = true) {k j : Nat}
    (h : Begun u app context config headers k j s) :
    Begun u app context config headers (k + 1) j (s.step app (.turn .app)) := by
  obtain ⟨hinv, h⟩ := h
  refine ⟨hinv.step _, ?_⟩
  by_cases haccepted : s.accepted = true
  · exact .inl (accepted_step haccepted _)
  · right
    have hreached := h.resolve_left haccepted
    refine reached_app hreached (absurd · (hinv.incomplete hupgrade haccepted)) fun _ => ?_
    obtain ⟨turns, m, htracks, -⟩ := hreached.tracks
    have hfirst := htracks.fed.seed_first
    have hlast := htracks.inbox_prefix
    have hitems :
        Line.items (tasks context app) [.connect] [Python.Ws.unreadable] = [.connect] := by
      rw [Line.items, show (tasks context app).reader = Python.Ws.pumpFrames from rfl]
      decide
    rw [hitems] at hlast ⊢
    exact (hfirst.eq_of_length_le hlast.length_le).symm

/-- The items that the app puts in some turns on `websocket.connect` alone. -/
def firstItems (u : Unicode) (app : AsgiApp σ) (context : ServicerContext) (n : Nat) :
    List Python.Ws.SendItem :=
  (tasks context app).worker.produced
    (some (app.start (Python.Ws.buildScope u context.invocationMetadata)),
      Line.items (tasks context app) [.connect] [Python.Ws.unreadable]) n

theorem begun_consumer (hupgrade : isWebSocketUpgrade headers = true) {k j : Nat}
    (h : Begun u app context config headers k (min j (firstItems u app context k).length) s) :
    Begun u app context config headers k (min (j + 1) (firstItems u app context k).length)
      (s.step app (.turn .consumer)) := by
  by_cases hmore : j < (firstItems u app context k).length
  · obtain ⟨hinv, h⟩ := h
    refine ⟨hinv.step _, ?_⟩
    by_cases haccepted : s.accepted = true
    · exact .inl (accepted_step haccepted _)
    · right
      have hreached := h.resolve_left haccepted
      rw [Nat.min_eq_left (by omega)] at hreached ⊢
      exact reached_consumer hreached (absurd · (hinv.incomplete hupgrade haccepted)) hmore
  · rw [Nat.min_eq_right (by omega)] at h ⊢
    exact begun_stable hupgrade k _ s _ trivial h

/-- Accepted, or the server has said something and the initial metadata is on its way. -/
def Announced (k : Nat) (s : Bridge context σ) : Prop :=
  s.accepted = true ∨ k = 0 ∧ said s.server = true

theorem announced_stable (k : Nat) :
    Stable (Bridge.step app) (fun _ => True) (Announced k : Bridge context σ → Prop) := by
  rintro s move - (haccepted | ⟨hk, hsaid⟩)
  · exact .inl (accepted_step haccepted move)
  · exact .inr ⟨hk, said_of_precedes (precedes_step app s move) hsaid⟩

theorem announced_ready {k : Nat} (h : Announced k s) :
    Announced (k + 1) (s.step app .ready) := by
  left
  obtain haccepted | ⟨-, hsaid⟩ := h
  · exact accepted_step haccepted _
  · by_cases haccepted : s.accepted = true
    · exact accepted_step haccepted _
    · simp only [Bridge.step, hsaid, Bool.not_eq_true _ ▸ haccepted, Bool.not_false, Bool.and_self,
        if_true]

/-- An app that begins is accepted. -/
theorem leads_accepted (hupgrade : isWebSocketUpgrade headers = true)
    (hfirst : SpeaksFirst u app context) :
    ∃ n, Leads (Bridge.step app) Fair n (Invariant u app context config headers)
      (fun s => s.accepted = true) := by
  obtain ⟨schedule, hnone, hsaid⟩ := hfirst
  have hsame := Connect.run_feed_idle app (connect u app context []) hnone [Python.Ws.unreadable]
  rw [Connect.connect_feed, List.nil_append] at hsame
  obtain ⟨n, htracks, -⟩ := (Connect.line_start u app context [Python.Ws.unreadable]).run
    (schedule.map Task.turn)
  rw [← Line.view_foldl Connect.line_step] at htracks
  let puts := (firstItems u app context n).length
  have hbegins : Leads (Bridge.step app) Fair 0 (Invariant u app context config headers)
      (Begun u app context config headers 0 0) :=
    Leads.of_imp fun _ h => begun_start hupgrade h
  have happ : Leads (Bridge.step app) Fair n (Begun u app context config headers 0 0)
      (Begun u app context config headers n (min 0 puts)) := by
    rw [Nat.zero_min]
    exact Leads.climb (P := fun k => Begun u app context config headers k 0)
      (fun k => begun_stable hupgrade k 0) (fun _ _ h => begun_app hupgrade h)
      (fun _ _ _ _ => trivial) (fun _ hround => hround (.turn .app) (by simp)) n
  have hloop : Leads (Bridge.step app) Fair puts
      (Begun u app context config headers n (min 0 puts))
      (Begun u app context config headers n (min puts puts)) :=
    Leads.climb (P := fun j => Begun u app context config headers n (min j puts))
      (fun j => begun_stable hupgrade n _) (fun _ _ h => begun_consumer hupgrade h)
      (fun _ _ _ _ => trivial) (fun _ hround => hround (.turn .consumer) (by simp)) puts
  have hsays : Leads (Bridge.step app) Fair 0
      (Begun u app context config headers n (min puts puts)) (Announced 0) := by
    refine Leads.of_imp fun s h => h.2.imp id fun hreached => ⟨rfl, ?_⟩
    rw [Nat.min_self] at hreached
    have hprecedes := Line.Reached.precedes htracks hreached
    have hcall : Precedes ((connect u app context [Python.Ws.unreadable]).run app schedule).result
      s.server.result := hprecedes
    rw [hsame] at hcall
    exact said_of_precedes hcall hsaid
  have hready : Leads (Bridge.step app) Fair 1 (Announced 0 : Bridge context σ → Prop)
      (Announced 1) :=
    Leads.climb announced_stable (fun _ _ h => announced_ready h)
      (fun _ _ _ _ => trivial) (fun _ hround => hround .ready (by simp)) 1
  have hdone : Leads (Bridge.step app) Fair 0 (Announced 1 : Bridge context σ → Prop)
      (fun s => s.accepted = true) :=
    Leads.of_imp fun s h => h.resolve_right fun h => absurd h.1 Nat.one_ne_zero
  exact ⟨_, ((((hbegins.trans happ).trans hloop).trans hsays).trans hready).trans hdone⟩

/-- Nothing of the client's is handed on, and nothing comes back. -/
structure Stalled (moves : List Move) (s : Bridge context σ) : Prop where
  accepted : s.accepted = false
  state : s.filter.state = .connecting
  pending : s.filter.pendingUpstreamData = clientBytes moves
  sent : sentMessages s.filter = []
  received : s.server.receiveQueue.history <+: [.connect]
  silent : said s.server = false
  written : written s.filter = []

theorem stalled_run (hupgrade : isWebSocketUpgrade headers = true)
    (hfirst : ¬ SpeaksFirst u app context) (moves : List Move) :
    Stalled moves ((start u app context config headers).run app moves) := by
  have hsound := sound_run u app context config headers moves
  have hwaits : ((start u app context config headers).run app moves).accepted = false := by
    by_contra haccepted
    exact hfirst (speaksFirst_of_accepted hupgrade (Bool.not_eq_false _ ▸ haccepted))
  have hunfed := unfed_run hupgrade hwaits
  generalize (start u app context config headers).run app moves = s at *
  obtain ⟨hwaiting, hwritten⟩ := hsound.waits hupgrade hwaits
  obtain ⟨hnone, harrived, hopen⟩ := hsound.unsent hupgrade hwaits
  obtain ⟨hreceived, hcomplete⟩ := hsound.served.received
  refine ⟨hwaits, hwaiting.state, hwaiting.pending, hnone, ?_, ?_, hwritten⟩
  · rw [hnone, List.take_nil] at hreceived
    obtain hall | hfront := List.prefix_concat_iff.mp hreceived
    · have hover := hcomplete (by rw [hall]; simp)
      rw [hopen] at hover
      cases hover
    · exact hfront
  · obtain ⟨schedule, hpump, hserver⟩ := hunfed
    by_contra hsaid
    exact hfirst ⟨schedule, hpump, hserver ▸ Bool.not_eq_false _ ▸ hsaid⟩

end Acceptance

/-- A connection is accepted if and only if the app begins: then under every fair schedule,
and otherwise under none. -/
theorem accepted_iff_speaksFirst {σ : Type} (u : Unicode) (app : AsgiApp σ)
    (context : ServicerContext) (config : WsGrpcBridgeConfig) {headers : HeaderMap}
    (hupgrade : isWebSocketUpgrade headers = true) :
    (SpeaksFirst u app context → ∃ enough, ∀ (moves : List Move) (rounds : List (List Move)),
      enough ≤ rounds.length → (∀ round ∈ rounds, Fair round) →
        ((start u app context config headers).run app (moves ++ rounds.flatten)).accepted = true) ∧
    (¬ SpeaksFirst u app context → ∀ moves,
      Stalled moves ((start u app context config headers).run app moves)) := by
  refine ⟨fun hfirst => ?_, fun hfirst => stalled_run hupgrade hfirst⟩
  obtain ⟨n, hleads⟩ : ∃ n, Leads (Bridge.step app) Fair n
      (Invariant u app context config headers) (fun s => s.accepted = true) :=
    leads_accepted hupgrade hfirst
  refine ⟨n, fun moves rounds hlength hfair => ?_⟩
  have hsound := sound_run u app context config headers moves
  rw [run, List.foldl_append]
  have hstable : Stable (Bridge.step app) (fun _ => True)
      (fun s : Bridge context σ => s.accepted = true) :=
    fun s move _ h => accepted_step h move
  exact hleads.le hstable (fun _ _ _ _ => trivial) ⟨moves, hsound⟩ hlength hfair

/-- An app that names its subprotocol at once. -/
theorem accepted_iff_speaksFirst_chat :
    SpeaksFirst .ascii chatApp (.taking []) ∧
    ∃ enough, ∀ (moves : List Move) (rounds : List (List Move)),
      enough ≤ rounds.length → (∀ round ∈ rounds, Fair round) →
        ((start .ascii chatApp (.taking []) ⟨"ws".toList, []⟩
          [("upgrade".toList, "websocket".toList)]).run
            chatApp (moves ++ rounds.flatten)).accepted = true :=
  have hfirst : SpeaksFirst .ascii chatApp (.taking []) := ⟨[.app, .consumer], by decide, by decide⟩
  ⟨hfirst, (accepted_iff_speaksFirst .ascii chatApp (.taking []) _ (by decide)).1 hfirst⟩

/-! ## The echo app -/

/-- `ws_echo_app` accepts without a subprotocol and then waits for a message. -/
theorem not_speaksFirst_echo (u : Unicode) (context : ServicerContext) :
    ¬ SpeaksFirst u wsEchoApp context := by
  rintro ⟨schedule, hpump, hsaid⟩
  have hrelaying := Python.Ws.relaying_run u context (show Python.Ws.ValidText [] by simp
    [Python.Ws.ValidText]) schedule
  have hserved : Python.Ws.Served u wsEchoApp context [] False
      ((connect u wsEchoApp context []).run wsEchoApp schedule) :=
    ⟨schedule, rfl, fun _ more => (Connect.run_feed_idle wsEchoApp _ hpump more).symm⟩
  have hopen := hserved.received.2
  generalize (connect u wsEchoApp context []).run wsEchoApp schedule = s at *
  have hreceived : s.receiveQueue.consumed <+: [.connect] := by
    have hall := s.receiveQueue.consumed_prefix.trans hrelaying.inbound
    obtain heq | hfront := List.prefix_concat_iff.mp hall
    · have hmem : .disconnect 1000 ∈ s.receiveQueue.consumed := by
        rw [heq]
        simp
      exact (hopen (s.receiveQueue.consumed_prefix.subset hmem)).elim
    · exact hfront
  -- the one thing it sends is an accept that names nothing
  have hsent : s.responses.queue.history <+: [.event (.accept none)] := by
    have hanswers : Python.Ws.answers s.receiveQueue.consumed <+: [.event (.accept none)] :=
      hreceived.filterMap _
    obtain heq | hfront := List.prefix_concat_iff.mp hrelaying.echo.sent_prefix
    · have hdone := hrelaying.echo.of_appDone (by rw [heq]; simp)
      exact (hopen (s.receiveQueue.consumed_prefix.subset hdone.2.1)).elim
    · exact hfront.trans hanswers
  have hquiet :
      ∀ x ∈ s.responses.queue.consumed, Python.Ws.consume context [] x = (none, none) := by
    intro x hx
    obtain rfl := List.mem_singleton.mp (hsent.subset (s.responses.queue.consumed_prefix.subset hx))
    rfl
  have houtput : s.responses.output = [] := by
    rw [hrelaying.follows.output_eq, List.filterMap_eq_nil_iff]
    intro x hx
    rw [hquiet x hx]
  have hended : s.ended = none := by
    by_contra hsome
    obtain ⟨e, he⟩ := Option.ne_none_iff_exists'.mp hsome
    obtain ⟨before, x, hconsumed, -, hmark⟩ := hrelaying.follows.ended_at e he
    rw [hquiet x (by rw [hconsumed]; simp)] at hmark
    cases hmark
  simp [said, houtput, hended] at hsaid

/-- Whatever the client sends and whoever has a turn, the echo app and its client wait for
each other. -/
theorem echo_stalled (u : Unicode) (context : ServicerContext) (config : WsGrpcBridgeConfig)
    {headers : HeaderMap} (hupgrade : isWebSocketUpgrade headers = true) (moves : List Move) :
    Stalled moves ((start u wsEchoApp context config headers).run wsEchoApp moves) :=
  stalled_run hupgrade (not_speaksFirst_echo u context) moves

/-- A message from the client, and turns until nothing moves. -/
theorem echo_stalled_hello :
    let moves : List Move := [.client [0x81, 0x02, 0x48, 0x69] false, .arrive, .turn .app,
      .turn .pump, .turn .app, .turn .consumer, .turn .app, .ready, .message]
    let s := (start .ascii wsEchoApp (.taking []) ⟨"ws".toList, []⟩
      [("upgrade".toList, "websocket".toList)]).run wsEchoApp moves
    s.server.app = some .waiting ∧ Stalled moves s :=
  ⟨by decide, echo_stalled _ _ _ (by decide) _⟩

end Bridge

end Grpcgi
