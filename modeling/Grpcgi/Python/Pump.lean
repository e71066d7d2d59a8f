import Mathlib.Data.List.Induction
import Grpcgi.Python.Connect

/-!
# The inbound side of a WebSocket connection

What the app finds in `receive_queue`, for every app and under every schedule:
`websocket.connect`, an event for each frame and `websocket.disconnect`. A text
frame that is not valid UTF-8 ends the pump where it stands. Nothing is put for it
and no `websocket.disconnect` follows, although the call goes on.
-/

namespace Grpcgi.Python.Ws

open Pipeline (Fed Fifo Reader)

/-- The events for the frames up to the first one that is not valid. -/
def receiveEvents : List Proto.Frame → List ReceiveEvent
  | [] => []
  | frame :: frames =>
    match receiveEvent frame with
    | some event => event :: receiveEvents frames
    | none => []

/-- What the app is to receive of a stream of frames. -/
def inboundEvents (frames : List Proto.Frame) : List ReceiveEvent :=
  .connect :: receiveEvents frames ++ [.disconnect 1000]

/-- The app has received what it should, so far or, after enough turns of the
pump, altogether; and while the call is open a pump that is over has put a
`websocket.disconnect`. -/
structure Inbound {context : ServicerContext} {σ : Type} (frames : List Proto.Frame)
    (schedule : List Task) (s : Connect context σ) : Prop where
  sofar : s.receiveQueue.history <+: inboundEvents frames
  complete : s.ended = none → frames.length < schedule.count .pump →
    s.receiveQueue.history = inboundEvents frames
  not_stuck : s.ended = none → s.pump = none →
    .disconnect 1000 ∈ s.receiveQueue.history

/-- Text frames carry UTF-8. -/
def ValidText (frames : List Proto.Frame) : Prop :=
  ∀ frame ∈ frames, frame.binary = false → (utf8Decode frame.payload).isSome

instance (frames : List Proto.Frame) : Decidable (ValidText frames) :=
  List.decidableBAll
    (fun frame : Proto.Frame => frame.binary = false → (utf8Decode frame.payload).isSome) frames

theorem receiveEvent_isSome {frame : Proto.Frame} :
    (receiveEvent frame).isSome ↔
      (frame.binary = false → (utf8Decode frame.payload).isSome) := by
  cases hbinary : frame.binary <;> simp [receiveEvent, hbinary]

theorem pumpFrames_some {frame : Proto.Frame} {event : ReceiveEvent}
    (h : receiveEvent frame = some event) : pumpFrames.body frame = ([event], true) := by
  simp only [pumpFrames, h]

theorem pumpFrames_none {frame : Proto.Frame} (h : receiveEvent frame = none) :
    pumpFrames.body frame = ([], false) := by
  simp only [pumpFrames, h]

/-- Everything the pump puts: the events, and `websocket.disconnect` if all the
frames are valid. -/
theorem pumpFrames_total (frames : List Proto.Frame) :
    pumpFrames.total frames = receiveEvents frames ++
      if ∀ frame ∈ frames, (receiveEvent frame).isSome then [.disconnect 1000] else [] := by
  induction frames with
  | nil => rfl
  | cons frame frames ih =>
      cases hevent : receiveEvent frame with
      | some event =>
          simp [Reader.total, receiveEvents, pumpFrames_some hevent, hevent, ih]
      | none => simp [Reader.total, receiveEvents, pumpFrames_none hevent, hevent]

theorem pumpFrames_total_valid {frames : List Proto.Frame} (h : ValidText frames) :
    pumpFrames.total frames = receiveEvents frames ++ [.disconnect 1000] := by
  rw [pumpFrames_total, if_pos]
  intro frame hframe
  exact receiveEvent_isSome.mpr (h frame hframe)

theorem pumpFrames_total_invalid {frames : List Proto.Frame} (h : ¬ ValidText frames) :
    pumpFrames.total frames = receiveEvents frames := by
  rw [pumpFrames_total, if_neg, List.append_nil]
  intro hsome
  exact h fun frame hframe => receiveEvent_isSome.mp (hsome frame hframe)

theorem receive_of_receiveEvent {frame : Proto.Frame} {event : ReceiveEvent}
    (h : receiveEvent frame = some event) : ∃ data text, event = .receive data text := by
  simp only [receiveEvent] at h
  split at h
  · obtain rfl := Option.some.inj h
    exact ⟨_, _, rfl⟩
  · obtain ⟨text, -, rfl⟩ := Option.map_eq_some_iff.mp h
    exact ⟨_, _, rfl⟩

/-- The events for frames are all `websocket.receive`. -/
theorem receive_of_mem {frames : List Proto.Frame} {event : ReceiveEvent}
    (h : event ∈ receiveEvents frames) : ∃ data text, event = .receive data text := by
  induction frames with
  | nil => cases h
  | cons frame frames ih =>
      cases hevent : receiveEvent frame with
      | none =>
          rw [receiveEvents, hevent] at h
          cases h
      | some first =>
          rw [receiveEvents, hevent] at h
          obtain rfl | h := List.mem_cons.mp h
          · exact receive_of_receiveEvent hevent
          · exact ih h

theorem not_mem_receiveEvents (frames : List Proto.Frame) (code : Nat) :
    .disconnect code ∉ receiveEvents frames := by
  intro h
  obtain ⟨data, text, hevent⟩ := receive_of_mem h
  cases hevent

/-! ## The pump under every schedule -/

namespace Connect

variable {context : ServicerContext} {σ : Type} {app : AsgiApp σ} {frames : List Proto.Frame}

/-- The queue and the pump after some turns. -/
def PumpFed (frames : List Proto.Frame) (turns : Nat) (s : Connect context σ) : Prop :=
  Fed pumpFrames frames [.connect] turns (s.ended = none) s.pump s.receiveQueue.history

/-- Only the pump puts into the receive queue, and only its own turns and its
cancellation move it. -/
theorem runApp_keeps (app : AsgiApp σ) (s : Connect context σ) :
    (s.runApp app).pump = s.pump ∧
      (s.runApp app).receiveQueue.history = s.receiveQueue.history ∧
      (s.runApp app).ended = s.ended := by
  simp only [runApp]
  split
  · exact ⟨rfl, rfl, rfl⟩
  · split
    · exact ⟨rfl, rfl, rfl⟩
    · split
      · exact ⟨rfl, rfl, rfl⟩
      · rename_i hget
        exact ⟨rfl, (Fifo.get?_some hget).1, rfl⟩
    · exact ⟨rfl, rfl, rfl⟩
    · exact ⟨rfl, rfl, rfl⟩

/-- A loop that has ended stays ended. -/
theorem ended_of_runConsumer {s : Connect context σ} (h : s.runConsumer.ended = none) :
    s.ended = none := by
  by_contra hended
  have hsome : s.responses.ended.isSome := Option.isSome_iff_ne_none.mpr hended
  rw [ended, runConsumer, Pipeline.Consumer.step_of_ended hsome] at h
  exact hended h

theorem PumpFed.step {turns : Nat} {s : Connect context σ} (h : PumpFed frames turns s)
    (task : Task) : PumpFed frames (turns + [task].count .pump) (s.step app task) := by
  cases task with
  | pump =>
      have hturn := Fed.turn h
      rw [← Fifo.history_putAll] at hturn
      exact hturn
  | app =>
      obtain ⟨hpump, hhistory, hended⟩ := runApp_keeps app s
      simp only [PumpFed, Connect.step, hpump, hhistory, hended]
      exact h
  | consumer =>
      apply Fed.mono h
      exact ended_of_runConsumer
  | cancelPump =>
      simp only [Connect.step]
      split
      · rename_i hended
        apply Fed.cancel h
        exact Option.isSome_iff_ne_none.mp hended
      · exact h
  | cancelApp =>
      simp only [Connect.step]
      split
      · exact h
      · exact h

/-- Every run. -/
theorem pumpFed_run (u : Unicode) (app : AsgiApp σ) (context : ServicerContext)
    (frames : List Proto.Frame) (schedule : List Task) :
    PumpFed frames (schedule.count .pump) ((connect u app context frames).run app schedule) := by
  induction schedule using List.reverseRecOn with
  | nil => exact Fed.start
  | append_singleton schedule task ih =>
      rw [run_concat, List.count_append]
      exact ih.step task

/-- The pump alone never ends the call. -/
theorem ended_run_pump (app : AsgiApp σ) (n : Nat) (s : Connect context σ) :
    (s.run app (List.replicate n .pump)).ended = s.ended := by
  induction n generalizing s with
  | zero => rfl
  | succ n ih => exact ih s.runPump

end Connect

/-- The app receives what it should under every schedule exactly when every text
frame carries UTF-8. -/
theorem inbound_iff {σ : Type} (u : Unicode) (app : AsgiApp σ) (context : ServicerContext)
    (frames : List Proto.Frame) :
    (∀ schedule, Inbound frames schedule ((connect u app context frames).run app schedule)) ↔
      ValidText frames := by
  have hfed := Connect.pumpFed_run u app context frames
  constructor
  · intro hinbound
    by_contra hinvalid
    -- the pump alone, with a turn for each frame and one more
    have hfed := hfed (List.replicate (frames.length + 1) .pump)
    have hinbound := hinbound (List.replicate (frames.length + 1) .pump)
    have hrunning := Connect.ended_run_pump app (frames.length + 1) (connect u app context frames)
    generalize (connect u app context frames).run app _ = s at hfed hinbound hrunning
    have hover : s.pump = none := by
      rw [(hfed.history_eq hrunning).2, List.count_replicate_self]
      exact Reader.after_eq_none (Nat.lt_succ_self _)
    have hmem := hinbound.not_stuck hrunning hover
    rw [Connect.PumpFed, hover] at hfed
    rw [hfed.history_total hrunning, pumpFrames_total_invalid hinvalid, List.singleton_append,
      List.mem_cons] at hmem
    obtain hmem | hmem := hmem
    · cases hmem
    · exact not_mem_receiveEvents frames 1000 hmem
  · intro hvalid schedule
    have hall := pumpFrames_total_valid hvalid
    have hexpected : [ReceiveEvent.connect] ++ pumpFrames.total frames = inboundEvents frames := by
      rw [hall]
      rfl
    have hfed := hfed schedule
    generalize (connect u app context frames).run app schedule = s at hfed ⊢
    have htotal : s.ended = none → s.pump = none →
        s.receiveQueue.history = inboundEvents frames := by
      intro hrunning hover
      rw [Connect.PumpFed, hover] at hfed
      rw [hfed.history_total hrunning, hexpected]
    constructor
    · rw [← hexpected]
      exact hfed.history_prefix
    · intro hrunning hturns
      apply htotal hrunning
      rw [(hfed.history_eq hrunning).2, Reader.after_eq_none hturns]
    · intro hrunning hover
      rw [htotal hrunning hover]
      exact List.mem_append_right _ (List.mem_singleton_self _)

/-- An app that goes on receiving. -/
def receivingApp : AsgiApp Unit where
  start _ := ()
  action _ := .receive fun _ => ()

/-- A text frame with the byte `FF`: the pump is over, the app has taken
`websocket.connect` and waits, and no task can do anything about it. -/
theorem invalid_text_stops_pump :
    let s := (connect .ascii receivingApp (.taking []) [⟨[0xFF], false⟩]).run receivingApp
      [.pump, .app]
    s.receiveQueue.history = [.connect] ∧ s.ended = none ∧ s.pump = none ∧
      (∀ task, s.step receivingApp task = s) ∧ ¬ Inbound [⟨[0xFF], false⟩] [.pump, .app] s := by
  intro s
  have hhistory : s.receiveQueue.history = [.connect] := by decide
  refine ⟨hhistory, rfl, rfl, ?_, ?_⟩
  · intro task
    cases task <;> rfl
  · intro h
    have hmem := h.not_stuck rfl rfl
    rw [hhistory] at hmem
    cases List.mem_singleton.mp hmem

end Grpcgi.Python.Ws
