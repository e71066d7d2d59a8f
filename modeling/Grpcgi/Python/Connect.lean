import Grpcgi.Pipeline.Consumer
import Grpcgi.Pipeline.Reader
import Grpcgi.Python.Scope

/-!
# The WebSocket bridge

`WebSocketBridgeServicer.Connect` of `ws.py`: three tasks and two queues. The
pump task feeds the client's frames to the app, the app task runs the ASGI app
and puts `_APP_DONE` when it is over, and the loop of the generator takes what the
app sent and yields frames. A schedule is any list of tasks: each entry gives one
task one turn, and a task that waits for something lets its turn pass.

The app is any program that sends, receives, returns or raises. It is one task, and what
it does next is decided by what it has received: it neither gives `receive()` a timeout
nor has tasks race. An `await` on anything else is a turn not given. The client
half-closes after its last frame and does not cancel the call.

Of `grpc.aio` the call uses its `context`. Which metadata `send_initial_metadata` takes
is a parameter of the model; it takes none once something has been sent.
-/

namespace Grpcgi.Python.Ws

open Pipeline (Consumer End Fifo Reader)

/-! ## Events -/

/-- An entry of `receive_queue`. -/
inductive ReceiveEvent where
  /-- `websocket.connect` -/
  | connect
  /-- `websocket.receive` -/
  | receive (bytes : Option Bytes) (text : Option Str)
  /-- `websocket.disconnect` -/
  | disconnect (code : Nat)
  deriving DecidableEq, Repr

/-- A code point of a Python `str`. -/
inductive CodePoint where
  | char (c : Char)
  /-- U+D800 and what follows up to U+DFFF -/
  | surrogate (offset : Fin 0x800)
  deriving DecidableEq, Repr

/-- A Python `str`, which may have surrogates in it. -/
abbrev PyStr := List CodePoint

def pyStr (s : Str) : PyStr := s.map .char

/-- `text.encode()`; `none` is the `UnicodeEncodeError` of a surrogate. -/
def encodeText : PyStr → Option Bytes
  | [] => some []
  | .surrogate _ :: _ => none
  | .char c :: text => (encodeText text).map (String.utf8EncodeChar c ++ ·)

@[simp] theorem encodeText_pyStr (s : Str) : encodeText (pyStr s) = some (utf8Encode s) := by
  induction s with
  | nil => rfl
  | cons c s ih =>
      rw [pyStr] at ih
      rw [pyStr, List.map_cons, encodeText, ih, Option.map_some, utf8Encode, utf8Encode,
        List.flatMap_cons]

/-- An event dictionary the app sends, with the entries that the bridge reads. -/
inductive SendEvent where
  /-- `websocket.accept` -/
  | accept (subprotocol : Option PyStr)
  /-- `websocket.send` -/
  | send (text : Option PyStr) (bytes : Option Bytes)
  /-- `websocket.close` -/
  | close
  | other (type : Option Str)
  deriving DecidableEq, Repr

/-- An entry of `send_queue`. -/
inductive SendItem where
  | event (e : SendEvent)
  /-- `_APP_DONE` -/
  | appDone
  deriving DecidableEq, Repr

/-- What the call sends to the client. -/
inductive Output where
  /-- `context.send_initial_metadata` -/
  | initialMetadata (metadata : List (Str × PyStr))
  | frame (frame : Proto.Frame)
  deriving DecidableEq, Repr

def Output.frame? : Output → Option Proto.Frame
  | .frame f => some f
  | .initialMetadata _ => none

/-! ## The loop bodies -/

/-- The event for a frame; `none` is the `UnicodeDecodeError` of
`frame.payload.decode()`. -/
def receiveEvent (frame : Proto.Frame) : Option ReceiveEvent :=
  if frame.binary then some (.receive (some frame.payload) none)
  else (utf8Decode frame.payload).map fun text => .receive none (some text)

/-- The body of `_pump_frames`. It catches `CancelledError` only, so that any
other exception ends the task. -/
def pumpFrames : Reader Proto.Frame ReceiveEvent where
  body frame :=
    match receiveEvent frame with
    | some event => ([event], true)
    | none => ([], false)
  eof := [.disconnect 1000]

/-- What the call uses of its `grpc.aio.ServicerContext`. -/
structure ServicerContext where
  invocationMetadata : List (Str × Str)
  /-- `send_initial_metadata` returns, after this output and for this metadata; it raises
  otherwise -/
  sendsMetadata : List Output → List (Str × PyStr) → Bool
  /-- initial metadata goes out once, and in front of every message -/
  sends_once : ∀ output metadata, output ≠ [] → sendsMetadata output metadata = false

/-- A context that takes any metadata in time. -/
def ServicerContext.taking (invocationMetadata : List (Str × Str)) : ServicerContext where
  invocationMetadata
  sendsMetadata output _ := output.isEmpty
  sends_once output _ h := by simpa using h

/-- The metadata that answers an `accept`. -/
def protocolMetadata (subprotocol : PyStr) : List (Str × PyStr) :=
  [("sec-websocket-protocol".toList, subprotocol)]

/-- The body of the `while` loop for the item it took, after this output: what is sent, and
whether the loop ends there. -/
def consume (context : ServicerContext) (output : List Output) :
    SendItem → Option Output × Option End
  | .appDone => (none, some .stopped)
  | .event (.accept subprotocol) =>
    match subprotocol with
    | none => (none, none)
    | some subprotocol =>
      if subprotocol = [] then (none, none)
      else if context.sendsMetadata output (protocolMetadata subprotocol) then
        (some (.initialMetadata (protocolMetadata subprotocol)), none)
      else (none, some .raised)
  | .event (.send text data) =>
    match text with
    | some text =>
      match encodeText text with
      | some payload => (some (.frame { payload, binary := false }), none)
      | none => (none, some .raised)
    | none =>
      match data with
      | some data => (some (.frame { payload := data, binary := true }), none)
      | none => (none, none)
  | .event .close => (none, some .stopped)
  | .event (.other _) => (none, none)

/-! ## The tasks -/

/-- What an app does next. -/
inductive Action (σ : Type) where
  | send (event : SendEvent) (next : σ)
  | receive (resume : ReceiveEvent → σ)
  | returned
  | raised

/-- An ASGI app of one task: where it starts on a scope, and what it does next. -/
structure AsgiApp (σ : Type) where
  start : Scope → σ
  action : σ → Action σ

/-- A call of `Connect`. -/
structure Connect (context : ServicerContext) (σ : Type) where
  /-- the frames `_pump_frames` has yet to read, `none` once the task is over -/
  pump : Option (List Proto.Frame)
  /-- where the app is, `none` once the task is over -/
  app : Option σ
  receiveQueue : Fifo ReceiveEvent := Fifo.empty.put .connect
  /-- `send_queue`, what was sent to the client, and how the loop ended -/
  responses : Consumer SendItem Output := {}

inductive Task where
  | pump
  | app
  | consumer
  /-- `frame_pump_task.cancel()` -/
  | cancelPump
  /-- `app_task.cancel()` -/
  | cancelApp
  deriving DecidableEq, Repr

/-- The first steps of `WebSocketBridgeServicer.Connect`. -/
def connect {σ : Type} (u : Unicode) (app : AsgiApp σ) (context : ServicerContext)
    (frames : List Proto.Frame) : Connect context σ :=
  { pump := some frames, app := some (app.start (buildScope u context.invocationMetadata)) }

namespace Connect

variable {context : ServicerContext} {σ : Type}

/-- The frames yielded so far. -/
def yielded (s : Connect context σ) : List Proto.Frame := s.responses.output.filterMap Output.frame?

/-- How the generator ended, if it has. -/
def ended (s : Connect context σ) : Option End := s.responses.ended

/-- One turn of `_pump_frames`. -/
def runPump (s : Connect context σ) : Connect context σ :=
  let (events, pump) := pumpFrames.turn s.pump
  { s with pump, receiveQueue := s.receiveQueue.putAll events }

/-- The `finally` clause of `_run_app`. -/
def appExit (s : Connect context σ) : Connect context σ :=
  { s with app := none, responses := s.responses.put .appDone }

/-- One turn of `_run_app`: a `receive` waits for an event. -/
def runApp (app : AsgiApp σ) (s : Connect context σ) : Connect context σ :=
  match s.app with
  | none => s
  | some x =>
    match app.action x with
    | .send event next => { s with app := some next, responses := s.responses.put (.event event) }
    | .receive resume =>
      match s.receiveQueue.get? with
      | none => s
      | some (event, receiveQueue) => { s with app := some (resume event), receiveQueue }
    | .returned => s.appExit
    | .raised => s.appExit

/-- One turn of the generator's loop. -/
def runConsumer (s : Connect context σ) : Connect context σ :=
  { s with responses := s.responses.step (consume context s.responses.output) }

/-- One turn. The tasks are cancelled in the `finally` clause after the loop; an
app that does something about it first has its turns before. -/
def step (app : AsgiApp σ) (s : Connect context σ) : Task → Connect context σ
  | .pump => s.runPump
  | .app => s.runApp app
  | .consumer => s.runConsumer
  | .cancelPump => if s.ended.isSome then { s with pump := none } else s
  | .cancelApp => if s.ended.isSome ∧ s.app.isSome then s.appExit else s

def run (app : AsgiApp σ) (schedule : List Task) (s : Connect context σ) : Connect context σ :=
  schedule.foldl (step app) s

theorem run_concat (app : AsgiApp σ) (schedule : List Task) (task : Task) (s : Connect context σ) :
    s.run app (schedule ++ [task]) = (s.run app schedule).step app task := by
  simp only [run, List.foldl_append, List.foldl_cons, List.foldl_nil]

end Connect

end Grpcgi.Python.Ws
