import Grpcgi.Pipeline.Consumer
import Grpcgi.Python.Scope

/-!
# The streaming HTTP bridge

`HttpBridgeServicer.Process` of `http.py`: three tasks and two queues. The pump
task feeds client messages to the app, the app task runs the ASGI app and puts
`_APP_DONE` when it is over, and the loop of the generator takes what the app
sent and yields responses. A schedule is any list of tasks: each entry gives one
task one turn, and a task that waits for something lets its turn pass.

The app is any program that sends, receives, returns or raises. It is one task, and what
it does next is decided by what it has received: it neither gives `receive()` a timeout
nor has tasks race. An `await` on anything else is a turn not given. The client does not
cancel the call.
-/

namespace Grpcgi.Python.Http

open Pipeline (Consumer End Fifo)

/-! ## Events -/

/-- An entry of `receive_queue`; its type is `http.request`. -/
structure ReceiveEvent where
  body : Bytes
  moreBody : Bool
  deriving DecidableEq, Repr

/-- A header name or value, `bytes` or `str`. -/
inductive Text where
  | bytes (b : Bytes)
  | str (s : Str)
  deriving DecidableEq, Repr

/-- `k.decode() if isinstance(k, bytes) else k`; `none` is a `UnicodeDecodeError`. -/
def Text.decode : Text → Option Str
  | .bytes b => utf8Decode b
  | .str s => some s

/-- An event dictionary the app sends, with the entries that the bridge reads. -/
inductive SendEvent where
  /-- `http.response.start` -/
  | responseStart (status : Option Int) (headers : Option (List (Text × Text)))
  /-- `http.response.body` -/
  | responseBody (body : Option Bytes) (moreBody : Option Bool)
  /-- `http.disconnect` -/
  | disconnect
  | other (type : Option Str)
  deriving DecidableEq, Repr

/-- An entry of `send_queue`. -/
inductive SendItem where
  | event (e : SendEvent)
  /-- `_APP_DONE` -/
  | appDone
  deriving DecidableEq, Repr

def SendItem.event? : SendItem → Option SendEvent
  | .event e => some e
  | .appDone => none

/-! ## The loop body -/

/-- A protobuf `uint32` field raises on any other integer. -/
def toUInt32 (i : Int) : Option UInt32 :=
  if 0 ≤ i ∧ i < 2 ^ 32 then some (UInt32.ofNat i.toNat) else none

/-- The list of `http_pb2.Header` messages. -/
def decodeHeaders (headers : List (Text × Text)) : Option (List Proto.Header) :=
  headers.mapM fun (k, v) =>
    match k.decode, v.decode with
    | some key, some value => some { key, valueKind := .value value }
    | _, _ => none

/-- The body of the `while` loop for the item it took: what is yielded, and
whether the loop ends there. -/
def consume : SendItem → Option Proto.ProcessingResponse × Option End
  | .appDone => (none, some .stopped)
  | .event (.responseStart status headers) =>
    match decodeHeaders (headers.getD []), toUInt32 (status.getD 200) with
    | some respHeaders, some status =>
      (some (.responseHeaders { status, headers := respHeaders }), none)
    | _, _ => (none, some .raised)
  | .event (.responseBody body moreBody) =>
    let bodyData := body.getD []
    let moreBody := moreBody.getD false
    (if bodyData ≠ [] ∨ moreBody = false then
        some (.responseBody { data := bodyData, endOfStream := !moreBody })
      else none,
      if moreBody then none else some .stopped)
  | .event .disconnect => (none, some .stopped)
  | .event (.other _) => (none, none)

/-! ## The tasks -/

/-- What an app does next. -/
inductive Action (σ : Type) where
  | send (event : SendEvent) (next : σ)
  | receive (resume : ReceiveEvent → σ)
  | returned
  | raised

/-- An ASGI app of one task: where it starts on a scope, and what it does next. -/
structure AsgiApp (σ : Type) where
  start : Scope → σ
  action : σ → Action σ

/-- A call of `Process` whose first message was `request_headers`. -/
structure Process (σ : Type) where
  /-- the messages `_pump_body` has yet to read, `none` once the task is over -/
  pump : Option (List Proto.ProcessingRequest)
  /-- where the app is, `none` once the task is over -/
  app : Option σ
  receiveQueue : Fifo ReceiveEvent := .empty
  /-- `send_queue`, what was yielded, and how the loop ended -/
  responses : Consumer SendItem Proto.ProcessingResponse := {}

inductive Task where
  | pump
  | app
  | consumer
  /-- `body_pump_task.cancel()` -/
  | cancelPump
  /-- `app_task.cancel()` -/
  | cancelApp
  deriving DecidableEq, Repr

namespace Process

variable {σ : Type}

/-- What has been yielded so far. -/
def yielded (s : Process σ) : List Proto.ProcessingResponse := s.responses.output

/-- How the generator ended, if it has. -/
def ended (s : Process σ) : Option End := s.responses.ended

/-- The events that the app has put so far. -/
def events (s : Process σ) : List SendEvent :=
  s.responses.queue.history.filterMap SendItem.event?

/-- One turn of `_pump_body`. -/
def pumpBody (s : Process σ) : Process σ :=
  match s.pump with
  | none => s
  | some [] =>
    { s with pump := none, receiveQueue := s.receiveQueue.put { body := [], moreBody := false } }
  | some (.requestBody chunk :: messages) =>
    { s with
      pump := if chunk.endOfStream then none else some messages
      receiveQueue :=
        s.receiveQueue.put { body := chunk.data, moreBody := !chunk.endOfStream } }
  | some (_ :: messages) => { s with pump := some messages }

/-- The `finally` clause of `_run_app`. -/
def appExit (s : Process σ) : Process σ :=
  { s with app := none, responses := s.responses.put .appDone }

/-- One turn of `_run_app`: a `receive` waits for an event. -/
def runApp (app : AsgiApp σ) (s : Process σ) : Process σ :=
  match s.app with
  | none => s
  | some x =>
    match app.action x with
    | .send event next => { s with app := some next, responses := s.responses.put (.event event) }
    | .receive resume =>
      match s.receiveQueue.get? with
      | none => s
      | some (event, receiveQueue) => { s with app := some (resume event), receiveQueue }
    | .returned => s.appExit
    | .raised => s.appExit

/-- One turn. The tasks are cancelled in the `finally` clause after the loop; an
app that does something about it first has its turns before. -/
def step (app : AsgiApp σ) (s : Process σ) : Task → Process σ
  | .pump => s.pumpBody
  | .app => s.runApp app
  | .consumer => { s with responses := s.responses.step consume }
  | .cancelPump => if s.ended.isSome then { s with pump := none } else s
  | .cancelApp => if s.ended.isSome ∧ s.app.isSome then s.appExit else s

def run (app : AsgiApp σ) (schedule : List Task) (s : Process σ) : Process σ :=
  schedule.foldl (step app) s

end Process

/-- What becomes of a call after its first message. -/
inductive Opening (σ : Type) where
  /-- the client sent nothing: the call ends without a response -/
  | closed
  /-- `context.abort(INVALID_ARGUMENT, …)` -/
  | aborted (details : Str)
  | running (s : Process σ)

/-- The first steps of `HttpBridgeServicer.Process`. -/
def process {σ : Type} (u : Unicode) (app : AsgiApp σ) :
    List Proto.ProcessingRequest → Opening σ
  | [] => .closed
  | .requestHeaders headers :: messages =>
    .running { pump := some messages, app := some (app.start (buildScope u headers)) }
  | _ :: _ => .aborted "first message must be request_headers".toList

/-! ## What every run keeps -/

namespace Process

variable {σ : Type} {app : AsgiApp σ}

/-- `_APP_DONE` is the last item of the queue, and there exactly when the app
task is over; the loop has followed the queue. -/
structure Sound (s : Process σ) : Prop where
  history_eq : s.responses.queue.history =
    s.events.map .event ++ if s.app.isNone then [.appDone] else []
  follows : s.responses.Follows consume

/-- The two ways a turn can touch the send queue. -/
theorem Sound.send {s : Process σ} (h : s.Sound) (hlive : s.app.isNone = false) (e : SendEvent)
    (next : σ) :
    Sound { s with app := some next, responses := s.responses.put (.event e) } where
  history_eq := by
    have hhistory := h.history_eq
    rw [hlive] at hhistory
    simp only [Bool.false_eq_true, if_false, List.append_nil] at hhistory
    simp only [events, Consumer.put, Fifo.history_put, Option.isNone_some, Bool.false_eq_true,
      if_false, List.append_nil, List.filterMap_append, List.map_append]
    rw [← events, ← hhistory]
    rfl
  follows := h.follows.put _

theorem Sound.appExit {s : Process σ} (h : s.Sound) (hlive : s.app.isNone = false) :
    s.appExit.Sound where
  history_eq := by
    have hhistory := h.history_eq
    rw [hlive] at hhistory
    simp only [Bool.false_eq_true, if_false, List.append_nil] at hhistory
    simp only [Process.appExit, events, Consumer.put, Fifo.history_put, Option.isNone_none, if_true,
      List.filterMap_append]
    have hdone : [SendItem.appDone].filterMap SendItem.event? = [] := rfl
    rw [hdone, List.append_nil, ← events, ← hhistory]
  follows := h.follows.put _

theorem Sound.runApp {s : Process σ} (h : s.Sound) : (s.runApp app).Sound := by
  simp only [Process.runApp]
  split
  · exact h
  · rename_i x hx
    have hlive : s.app.isNone = false := by rw [hx]; rfl
    split
    · exact h.send hlive _ _
    · split
      · exact h
      · refine ⟨?_, h.follows⟩
        have hhistory := h.history_eq
        rw [hlive] at hhistory
        exact hhistory
    · exact h.appExit hlive
    · exact h.appExit hlive

/-- No task breaks it. -/
theorem Sound.step {s : Process σ} (h : s.Sound) (task : Task) : (s.step app task).Sound := by
  cases task with
  | pump =>
      simp only [Process.step, pumpBody]
      split <;> exact ⟨h.history_eq, h.follows⟩
  | app => exact h.runApp
  | consumer =>
      refine ⟨?_, h.follows.step⟩
      simp only [Process.step, events, Pipeline.Consumer.step_history]
      exact h.history_eq
  | cancelPump =>
      simp only [Process.step]
      split
      · exact ⟨h.history_eq, h.follows⟩
      · exact h
  | cancelApp =>
      simp only [Process.step]
      split
      · rename_i hcancel
        apply h.appExit
        rw [← Option.not_isSome, hcancel.2]
        rfl
      · exact h

theorem Sound.run {s : Process σ} (h : s.Sound) (schedule : List Task) :
    (s.run app schedule).Sound := by
  induction schedule generalizing s with
  | nil => exact h
  | cons task schedule ih => exact ih (h.step task)

/-- Every run after a valid first message is sound. -/
theorem sound_of_process {u : Unicode} {messages : List Proto.ProcessingRequest} {s : Process σ}
    (h : process u app messages = .running s) (schedule : List Task) :
    (s.run app schedule).Sound := by
  apply Sound.run
  simp only [process] at h
  split at h
  · exact absurd h (by simp)
  · obtain rfl := Opening.running.inj h
    exact ⟨rfl, Pipeline.Consumer.follows_empty⟩
  · exact absurd h (by simp)

theorem run_consumer (app : AsgiApp σ) (n : Nat) (s : Process σ) :
    s.run app (List.replicate n .consumer) =
      { s with responses := (Pipeline.Consumer.step consume)^[n] s.responses } := by
  induction n generalizing s with
  | zero => rfl
  | succ n ih => exact ih (s.step app .consumer)

/-- `_APP_DONE` does its work: once the app task is over, however it ended, the
generator ends after finitely many turns of the loop alone. -/
theorem Sound.generator_ends {s : Process σ} (h : s.Sound) (hover : s.app = none) :
    (s.run app (List.replicate s.responses.queue.history.length .consumer)).ended.isSome := by
  have hdone : .appDone ∈ s.responses.queue.history := by
    rw [h.history_eq, hover]
    exact List.mem_append_right _ (List.mem_singleton_self _)
  rw [run_consumer]
  exact h.follows.ends hdone (by simp [consume]) (Nat.le_add_left _ _)

end Process

end Grpcgi.Python.Http
