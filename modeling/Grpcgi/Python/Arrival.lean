import Grpcgi.Python.Pump

/-!
# Frames that are still to arrive

`connect` is given the frames of a call at once, and a pump that has read them all finds
the end of the stream. On the network they arrive one by one, and until the stream has
ended a pump with nothing to read waits. Such a call is at every moment a call that
was given the frames that have arrived (`Served`), and the later ones make no
difference to what it has done.
-/

namespace Grpcgi.Python.Ws

open Pipeline (Reader)

namespace Connect

variable {context : ServicerContext} {σ : Type}

/-- More frames reach the server. -/
def feed (frames : List Proto.Frame) (s : Connect context σ) : Connect context σ :=
  { s with pump := s.pump.map (· ++ frames) }

@[simp] theorem feed_responses (frames : List Proto.Frame) (s : Connect context σ) :
    (s.feed frames).responses = s.responses := rfl

@[simp] theorem feed_receiveQueue (frames : List Proto.Frame) (s : Connect context σ) :
    (s.feed frames).receiveQueue = s.receiveQueue := rfl

@[simp] theorem feed_ended (frames : List Proto.Frame) (s : Connect context σ) :
    (s.feed frames).ended = s.ended := rfl

@[simp] theorem feed_yielded (frames : List Proto.Frame) (s : Connect context σ) :
    (s.feed frames).yielded = s.yielded := rfl

theorem feed_feed (frames more : List Proto.Frame) (s : Connect context σ) :
    (s.feed frames).feed more = s.feed (frames ++ more) := by
  obtain ⟨_ | pump, app, queue, responses⟩ := s
  · rfl
  · simp [feed]

theorem connect_feed (u : Unicode) (app : AsgiApp σ) (context : ServicerContext)
    (frames more : List Proto.Frame) :
    (connect u app context frames).feed more = connect u app context (frames ++ more) := rfl

/-- The turn of a pump that has something to read is the same with more behind it. -/
theorem runPump_feed {s : Connect context σ} (h : s.pump ≠ some []) (more : List Proto.Frame) :
    (s.feed more).runPump = s.runPump.feed more := by
  obtain ⟨_ | _ | ⟨frame, frames⟩, app, queue, responses⟩ := s
  · rfl
  · exact absurd rfl h
  · simp only [feed, runPump, Option.map_some, Reader.turn, List.cons_append]
    split <;> rfl

/-- A pump that is over lets its turn pass. -/
theorem runPump_over {s : Connect context σ} (h : s.pump = none) : s.runPump = s := by
  obtain ⟨pump, app, queue, responses⟩ := s
  subst h
  rfl

theorem runApp_feed (app : AsgiApp σ) (s : Connect context σ) (more : List Proto.Frame) :
    (s.feed more).runApp app = (s.runApp app).feed more := by
  obtain ⟨pump, _ | x, queue, responses⟩ := s
  · rfl
  · simp only [feed, runApp]
    cases app.action x with
    | send event next => rfl
    | receive resume => cases queue.get? <;> rfl
    | returned => rfl
    | raised => rfl

/-- One turn, of which the pump's finds something to read. -/
theorem step_feed (app : AsgiApp σ) {s : Connect context σ} {task : Task}
    (h : task = .pump → s.pump ≠ some []) (more : List Proto.Frame) :
    (s.feed more).step app task = (s.step app task).feed more := by
  cases task with
  | pump => exact runPump_feed (h rfl) more
  | app => exact runApp_feed app s more
  | consumer => rfl
  | cancelPump =>
      by_cases hended : s.ended.isSome
      · have hsame : (s.feed more).ended.isSome := hended
        simp only [step, if_pos hended, if_pos hsame]
        rfl
      · have hsame : ¬ (s.feed more).ended.isSome := hended
        simp only [step, if_neg hended, if_neg hsame]
  | cancelApp =>
      by_cases hcancel : s.ended.isSome ∧ s.app.isSome
      · have hsame : (s.feed more).ended.isSome ∧ (s.feed more).app.isSome := hcancel
        simp only [step, if_pos hcancel, if_pos hsame]
        rfl
      · have hsame : ¬ ((s.feed more).ended.isSome ∧ (s.feed more).app.isSome) := hcancel
        simp only [step, if_neg hcancel, if_neg hsame]

/-- A run in which the pump has no more turns than there are frames. -/
theorem run_feed (app : AsgiApp σ) {s : Connect context σ} {schedule : List Task}
    (h : ∀ frames, s.pump = some frames → schedule.count .pump ≤ frames.length)
    (more : List Proto.Frame) :
    (s.feed more).run app schedule = (s.run app schedule).feed more := by
  induction schedule generalizing s with
  | nil => rfl
  | cons task schedule ih =>
      have hfinds : task = .pump → s.pump ≠ some [] := by
        rintro rfl hempty
        have hcount := h [] hempty
        rw [List.count_cons_self] at hcount
        cases hcount
      have hrest := ih (s := s.step app task) ?_
      · rw [← step_feed app hfinds] at hrest
        exact hrest
      · intro frames hframes
        cases task with
        | pump =>
            cases hpump : s.pump with
            | none =>
                rw [step, runPump_over hpump, hpump] at hframes
                cases hframes
            | some rest =>
                cases rest with
                | nil => exact absurd hpump (hfinds rfl)
                | cons frame rest =>
                    have hcount := h _ hpump
                    rw [List.count_cons_self, List.length_cons] at hcount
                    simp only [step, runPump, hpump, Reader.turn] at hframes
                    split at hframes
                    · obtain rfl := Option.some.inj hframes
                      exact Nat.le_of_succ_le_succ hcount
                    · cases hframes
        | app =>
            rw [step, (runApp_keeps app s).1] at hframes
            simpa using h frames hframes
        | consumer => simpa using h frames hframes
        | cancelPump =>
            simp only [step] at hframes
            split at hframes
            · cases hframes
            · simpa using h frames hframes
        | cancelApp =>
            simp only [step] at hframes
            split at hframes
            · simpa using h frames hframes
            · simpa using h frames hframes

/-- A run in which the pump has no turn. -/
theorem run_feed_idle (app : AsgiApp σ) (s : Connect context σ) {schedule : List Task}
    (h : .pump ∉ schedule) (more : List Proto.Frame) :
    (s.feed more).run app schedule = (s.run app schedule).feed more := by
  apply run_feed
  intro frames _
  rw [List.count_eq_zero_of_not_mem h]
  exact Nat.zero_le _

/-- What has been put for the app stays. -/
theorem history_step (app : AsgiApp σ) (s : Connect context σ) (task : Task) :
    s.receiveQueue.history <+: (s.step app task).receiveQueue.history := by
  cases task with
  | pump =>
      simp only [step, runPump, Pipeline.Fifo.history_putAll]
      exact List.prefix_append _ _
  | app => exact (runApp_keeps app s).2.1 ▸ List.prefix_rfl
  | consumer => exact List.prefix_rfl
  | cancelPump =>
      simp only [step]
      split
      · exact List.prefix_rfl
      · exact List.prefix_rfl
  | cancelApp =>
      simp only [step]
      split
      · exact List.prefix_rfl
      · exact List.prefix_rfl

theorem feed_nil (s : Connect context σ) : s.feed [] = s := by
  obtain ⟨_ | pump, app, queue, responses⟩ := s
  · rfl
  · simp [feed]

end Connect

/-- A text frame that is not UTF-8. The pump stops there and puts nothing for it, so that a
call with this frame behind the others is one whose stream goes on. -/
def unreadable : Proto.Frame := ⟨[0xFF], false⟩

theorem receiveEvents_unreadable (frames : List Proto.Frame) :
    receiveEvents (frames ++ [unreadable]) = receiveEvents frames := by
  induction frames with
  | nil => decide
  | cons frame frames ih =>
      simp only [List.cons_append, receiveEvents]
      split
      · rw [ih]
      · rfl

theorem total_unreadable (frames : List Proto.Frame) :
    pumpFrames.total (frames ++ [unreadable]) = receiveEvents frames := by
  rw [pumpFrames_total_invalid, receiveEvents_unreadable]
  intro hvalid
  have hlast := hvalid unreadable (by simp) rfl
  exact absurd hlast (by decide)

/-- The call that has got these frames so far. If they are not `complete`, more may come,
and it stands as if those had been there all the time. -/
structure Served {σ : Type} (u : Unicode) (app : AsgiApp σ) (context : ServicerContext)
    (frames : List Proto.Frame) (complete : Prop) (s : Connect context σ) : Prop where
  run : ∃ schedule, s = (connect u app context frames).run app schedule ∧
    (¬ complete → ∀ more,
      s.feed more = (connect u app context (frames ++ more)).run app schedule)

namespace Served

variable {σ : Type} {u : Unicode} {app : AsgiApp σ} {context : ServicerContext}
  {frames : List Proto.Frame} {complete : Prop} {s : Connect context σ}

theorem start : Served u app context [] complete (connect u app context []) :=
  ⟨[], rfl, fun _ _ => rfl⟩

/-- One turn, of which the pump's waits for a frame unless the stream is over. -/
theorem turn (h : Served u app context frames complete s) {task : Task}
    (hwaits : task = .pump → s.pump = some [] → complete) :
    Served u app context frames complete (s.step app task) := by
  obtain ⟨schedule, hrun, hmore⟩ := h.run
  refine ⟨schedule ++ [task], ?_, fun hopen more => ?_⟩
  · rw [Connect.run_concat, ← hrun]
  · rw [Connect.run_concat, ← hmore hopen, Connect.step_feed]
    exact fun htask hempty => hopen (hwaits htask hempty)

/-- More frames arrive. -/
theorem arrive (h : Served u app context frames complete s) (hopen : ¬ complete)
    (more : List Proto.Frame) {complete' : Prop} :
    Served u app context (frames ++ more) complete' (s.feed more) := by
  obtain ⟨schedule, -, hmore⟩ := h.run
  refine ⟨schedule, hmore hopen more, fun _ rest => ?_⟩
  rw [Connect.feed_feed, hmore hopen, List.append_assoc]

/-- The stream comes to its end. -/
theorem mono (h : Served u app context frames complete s) {complete' : Prop}
    (himp : complete → complete') : Served u app context frames complete' s := by
  obtain ⟨schedule, hrun, hmore⟩ := h.run
  exact ⟨schedule, hrun, fun hopen => hmore fun h => hopen (himp h)⟩

/-- The app finds the events of these frames, and the disconnect once they are complete. -/
theorem received (h : Served u app context frames complete s) :
    s.receiveQueue.history <+: inboundEvents frames ∧
      (.disconnect 1000 ∈ s.receiveQueue.history → complete) := by
  obtain ⟨schedule, hrun, hmore⟩ := h.run
  have hexpected (all : List Proto.Frame) :
      [ReceiveEvent.connect] ++ pumpFrames.total all <+: inboundEvents all := by
    rw [pumpFrames_total, inboundEvents, ← List.append_assoc]
    split
    · exact List.prefix_rfl
    · rw [List.append_nil]
      exact List.prefix_append _ _
  refine ⟨?_, fun hmem => ?_⟩
  · rw [hrun]
    have hfed := Connect.pumpFed_run u app context frames schedule
    exact List.IsPrefix.trans hfed.history_prefix (hexpected frames)
  · by_contra hopen
    -- the stream may go on, and then there is no disconnect
    have hfed := Connect.pumpFed_run u app context (frames ++ [unreadable]) schedule
    have hbegun := hfed.history_prefix
    rw [← hmore hopen, Connect.feed_receiveQueue, total_unreadable] at hbegun
    obtain hmem | hmem := List.mem_append.mp (hbegun.subset hmem)
    · cases List.mem_singleton.mp hmem
    · exact not_mem_receiveEvents _ _ hmem

end Served

end Grpcgi.Python.Ws
