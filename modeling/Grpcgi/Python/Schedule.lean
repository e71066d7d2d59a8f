import Grpcgi.Pipeline.Line
import Grpcgi.Python.RequestBody
import Grpcgi.Python.Response
import Grpcgi.Python.Connect

/-!
# Schedules of the two bridges

`Process` and `Connect` are lines of three tasks: the pump reads the client's
messages, the app works, the generator's loop yields. The event loop of Python may
give them their turns in any order. What the client gets does not depend on it:
two runs of a call with the same app yield the same, as far as both have come, and
when one of them has ended, every fair run ends in the same way with the same
responses. What they yield is what the tasks would yield one after the other, without
any concurrency: so a call ends exactly if the app comes to an end by itself, with all
that the pump has for it. All this is about apps of one task; one that lets tasks race, or
waits with a timeout, makes the schedule its own.
-/

namespace Grpcgi.Python

open Pipeline (End Line Precedes Tasks)

namespace Http

/-- The three tasks of `HttpBridgeServicer.Process`. -/
def tasks {σ : Type} (app : AsgiApp σ) :
    Tasks σ Proto.ProcessingRequest ReceiveEvent SendItem Proto.ProcessingResponse where
  reader := pumpReader
  worker := {
    act := fun x =>
      match app.action x with
      | .send event next => .put (.event event) next
      | .receive resume => .take resume
      | .returned => .leave
      | .raised => .leave
    exit := .appDone }
  body := fun _ => consume

def Task.turn : Task → Line.Task
  | .pump => .reader
  | .app => .worker
  | .consumer => .consumer
  | .cancelPump => .cancelReader
  | .cancelApp => .cancelWorker

/-- Each of the three tasks has a turn. -/
def Fair (round : List Task) : Prop := .pump ∈ round ∧ .app ∈ round ∧ .consumer ∈ round

theorem Fair.turns {round : List Task} (h : Fair round) : Line.Fair (round.map Task.turn) :=
  ⟨List.mem_map_of_mem h.1, List.mem_map_of_mem h.2.1, List.mem_map_of_mem h.2.2⟩

namespace Process

variable {σ : Type} {app : AsgiApp σ}

/-- What was yielded, and how the generator ended. -/
def result (s : Process σ) : List Proto.ProcessingResponse × Option End := (s.yielded, s.ended)

def line (s : Process σ) :
    Line σ Proto.ProcessingRequest ReceiveEvent SendItem Proto.ProcessingResponse where
  feed := s.pump
  worker := s.app
  inbox := s.receiveQueue
  outbox := s.responses

theorem line_runApp (s : Process σ) : (s.runApp app).line = s.line.runWorker (tasks app) := by
  obtain ⟨pump, a, queue, responses⟩ := s
  cases a with
  | none => rfl
  | some x =>
      simp only [runApp, Line.runWorker, line, tasks]
      cases app.action x with
      | send event next => rfl
      | receive resume => cases queue.get? <;> rfl
      | returned => rfl
      | raised => rfl

theorem line_step (s : Process σ) (task : Task) :
    (s.step app task).line = s.line.step (tasks app) task.turn := by
  cases task with
  | pump =>
      simp only [step, pumpBody_eq]
      rfl
  | app => exact s.line_runApp
  | consumer => rfl
  | cancelPump => exact apply_ite line _ _ _
  | cancelApp => exact apply_ite line _ _ _

theorem line_start {u : Unicode} {messages : List Proto.ProcessingRequest} {s : Process σ}
    (h : process u app messages = .running s) :
    ∃ xs x, Line.Tracks (tasks app) [] xs x 0 0 s.line := by
  simp only [process] at h
  split at h
  · exact absurd h (by simp)
  · obtain rfl := Opening.running.inj h
    exact ⟨_, _, Line.Tracks.start rfl rfl⟩
  · exact absurd h (by simp)

end Process

/-- The schedule of a streaming call does not decide what the client gets. -/
theorem process_any_schedule {σ : Type} {u : Unicode} {app : AsgiApp σ}
    {messages : List Proto.ProcessingRequest} {s : Process σ}
    (h : process u app messages = .running s) (a : List Task) :
    (∀ b, Precedes (s.run app a).result (s.run app b).result ∨
      Precedes (s.run app b).result (s.run app a).result) ∧
    ((s.run app a).ended.isSome → ∃ enough, ∀ rounds : List (List Task),
      enough ≤ rounds.length → (∀ round ∈ rounds, Fair round) →
        (s.run app rounds.flatten).result = (s.run app a).result) := by
  obtain ⟨xs, x, hstart⟩ := Process.line_start h
  obtain ⟨hprecedes, hends⟩ := Line.any_schedule Process.line_step hstart a
  refine ⟨hprecedes, fun hended => ?_⟩
  obtain ⟨enough, hends⟩ := hends hended
  exact ⟨enough, fun rounds hlength hfair =>
    hends rounds hlength fun round hround => (hfair round hround).turns⟩

/-- The call without concurrency: the pump reads the whole request, the app has `n` turns,
and then the loop yields. -/
def sequential {σ : Type} (app : AsgiApp σ) (scope : Scope)
    (messages : List Proto.ProcessingRequest) (n : Nat) :
    List Proto.ProcessingResponse × Option End :=
  Line.sequential (tasks app) [] messages (app.start scope) n

/-- A streaming call is its tasks one after the other: under no schedule does the client get
anything else, and under every fair one it gets all of it. -/
theorem process_sequential {σ : Type} (u : Unicode) (app : AsgiApp σ)
    (headers : Proto.RequestHeaders) (messages : List Proto.ProcessingRequest) :
    ∃ s, process u app (.requestHeaders headers :: messages) = .running s ∧
      (∀ a, ∃ n, Precedes (s.run app a).result
        (sequential app (buildScope u headers) messages n)) ∧
      ∀ n, ∃ enough, ∀ rounds : List (List Task), enough ≤ rounds.length →
        (∀ round ∈ rounds, Fair round) →
          Precedes (sequential app (buildScope u headers) messages n)
            (s.run app rounds.flatten).result := by
  let s : Process σ := { pump := some messages, app := some (app.start (buildScope u headers)) }
  have hstart : Line.Tracks (tasks app) [] messages (app.start (buildScope u headers)) 0 0
      s.line := Line.Tracks.start rfl rfl
  obtain ⟨hbounded, hreached⟩ := Line.sequential_runs Process.line_step hstart
  refine ⟨s, rfl, hbounded, fun n => ?_⟩
  obtain ⟨enough, hreached⟩ := hreached n
  exact ⟨enough, fun rounds hlength hfair =>
    hreached rounds hlength fun round hround => (hfair round hround).turns⟩

/-- A response in three events under a hurried schedule, and under fair ones. -/
theorem process_any_schedule_three :
    let s := opened threeEvents
    let app := scripted threeEvents false
    let a := [Task.app, .app, .app, .consumer, .consumer, .consumer]
    (s.run app a).ended.isSome ∧ ∃ enough, ∀ rounds : List (List Task),
      enough ≤ rounds.length → (∀ round ∈ rounds, Fair round) →
        (s.run app rounds.flatten).result = (s.run app a).result :=
  ⟨by decide, (process_any_schedule
    (process_scripted .ascii threeEvents false { headers := [] }) _).2 (by decide)⟩

end Http

namespace Ws

/-- The three tasks of `WebSocketBridgeServicer.Connect`. -/
def tasks {σ : Type} (context : ServicerContext) (app : AsgiApp σ) :
    Tasks σ Proto.Frame ReceiveEvent SendItem Output where
  reader := pumpFrames
  worker := {
    act := fun x =>
      match app.action x with
      | .send event next => .put (.event event) next
      | .receive resume => .take resume
      | .returned => .leave
      | .raised => .leave
    exit := .appDone }
  body := consume context

def Task.turn : Task → Line.Task
  | .pump => .reader
  | .app => .worker
  | .consumer => .consumer
  | .cancelPump => .cancelReader
  | .cancelApp => .cancelWorker

/-- Each of the three tasks has a turn. -/
def Fair (round : List Task) : Prop := .pump ∈ round ∧ .app ∈ round ∧ .consumer ∈ round

theorem Fair.turns {round : List Task} (h : Fair round) : Line.Fair (round.map Task.turn) :=
  ⟨List.mem_map_of_mem h.1, List.mem_map_of_mem h.2.1, List.mem_map_of_mem h.2.2⟩

namespace Connect

variable {context : ServicerContext} {σ : Type} {app : AsgiApp σ}

/-- What was sent to the client, and how the generator ended. -/
def result (s : Connect context σ) : List Output × Option End := (s.responses.output, s.ended)

def line (s : Connect context σ) : Line σ Proto.Frame ReceiveEvent SendItem Output where
  feed := s.pump
  worker := s.app
  inbox := s.receiveQueue
  outbox := s.responses

theorem line_runApp (s : Connect context σ) :
    (s.runApp app).line = s.line.runWorker (tasks context app) := by
  obtain ⟨pump, a, queue, responses⟩ := s
  cases a with
  | none => rfl
  | some x =>
      simp only [runApp, Line.runWorker, line, tasks]
      cases app.action x with
      | send event next => rfl
      | receive resume => cases queue.get? <;> rfl
      | returned => rfl
      | raised => rfl

theorem line_step (s : Connect context σ) (task : Task) :
    (s.step app task).line = s.line.step (tasks context app) task.turn := by
  cases task with
  | pump => rfl
  | app => exact s.line_runApp
  | consumer => rfl
  | cancelPump => exact apply_ite line _ _ _
  | cancelApp => exact apply_ite line _ _ _

/-- What was sent to the client stays, and is all there is once the call has ended. -/
theorem precedes_step (app : AsgiApp σ) (s : Connect context σ) (task : Task) :
    Precedes s.result (s.step app task).result := by
  have hstep := Line.precedes_step (tasks context app) s.line task.turn
  rw [← line_step] at hstep
  exact hstep

theorem line_start (u : Unicode) (app : AsgiApp σ) (context : ServicerContext)
    (frames : List Proto.Frame) :
    Line.Tracks (tasks context app) [.connect] frames
      (app.start (buildScope u context.invocationMetadata)) 0 0
      (connect u app context frames).line :=
  Line.Tracks.start rfl rfl

end Connect

/-- The schedule of a connection does not decide what the client gets. -/
theorem connect_any_schedule {σ : Type} (u : Unicode) (app : AsgiApp σ)
    (context : ServicerContext) (frames : List Proto.Frame) (a : List Task) :
    (∀ b, Precedes ((connect u app context frames).run app a).result
        ((connect u app context frames).run app b).result ∨
      Precedes ((connect u app context frames).run app b).result
        ((connect u app context frames).run app a).result) ∧
    (((connect u app context frames).run app a).ended.isSome →
      ∃ enough, ∀ rounds : List (List Task),
        enough ≤ rounds.length → (∀ round ∈ rounds, Fair round) →
          ((connect u app context frames).run app rounds.flatten).result =
            ((connect u app context frames).run app a).result) := by
  obtain ⟨hprecedes, hends⟩ :=
    Line.any_schedule Connect.line_step (Connect.line_start u app context frames) a
  refine ⟨hprecedes, fun hended => ?_⟩
  obtain ⟨enough, hends⟩ := hends hended
  exact ⟨enough, fun rounds hlength hfair =>
    hends rounds hlength fun round hround => (hfair round hround).turns⟩

/-- The connection without concurrency: the pump reads all frames, the app has `n` turns,
and then the loop sends. -/
def sequential {σ : Type} (u : Unicode) (app : AsgiApp σ) (context : ServicerContext)
    (frames : List Proto.Frame) (n : Nat) : List Output × Option End :=
  Line.sequential (tasks context app) [.connect] frames
    (app.start (buildScope u context.invocationMetadata)) n

/-- A connection is its tasks one after the other: under no schedule does the client get
anything else, and under every fair one it gets all of it. -/
theorem connect_sequential {σ : Type} (u : Unicode) (app : AsgiApp σ)
    (context : ServicerContext) (frames : List Proto.Frame) :
    (∀ a, ∃ n, Precedes ((connect u app context frames).run app a).result
      (sequential u app context frames n)) ∧
    ∀ n, ∃ enough, ∀ rounds : List (List Task), enough ≤ rounds.length →
      (∀ round ∈ rounds, Fair round) →
        Precedes (sequential u app context frames n)
          ((connect u app context frames).run app rounds.flatten).result := by
  obtain ⟨hbounded, hreached⟩ :=
    Line.sequential_runs Connect.line_step (Connect.line_start u app context frames)
  refine ⟨hbounded, fun n => ?_⟩
  obtain ⟨enough, hreached⟩ := hreached n
  exact ⟨enough, fun rounds hlength hfair =>
    hreached rounds hlength fun round hround => (hfair round hround).turns⟩

end Ws

end Grpcgi.Python
