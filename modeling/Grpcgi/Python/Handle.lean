import Grpcgi.Python.Process

/-!
# The unary HTTP bridge

`HttpBridgeServicer.Handle` of `http.py`. The app runs inside the call: `receive`
answers the request once and then waits for the end of the response, `send`
collects what the response will carry. One turn is one `receive` or `send` of the
app, or its end.
-/

namespace Grpcgi.Python.Http

/-- What `receive()` returns. -/
inductive Received where
  /-- `http.request` -/
  | request (event : ReceiveEvent)
  /-- `http.disconnect` -/
  | disconnect
  deriving DecidableEq, Repr

/-- What an app does next when run by either call. `Handle` may raise out of
`send`, and the app goes on from `failed`. -/
inductive HttpAction (σ : Type) where
  | send (event : SendEvent) (next failed : σ)
  | receive (resume : Received → σ)
  | returned
  | raised

structure HttpApp (σ : Type) where
  start : Scope → σ
  action : σ → HttpAction σ

/-- The app as `Process` runs it: `send_queue.put` never raises, and
`receive_queue` has only `http.request` events. -/
def HttpApp.onProcess {σ : Type} (app : HttpApp σ) : AsgiApp σ where
  start := app.start
  action x :=
    match app.action x with
    | .send event next _ => .send event next
    | .receive resume => .receive fun event => resume (.request event)
    | .returned => .returned
    | .raised => .raised

/-- The call of the app. -/
inductive AppCall (σ : Type) where
  | running (x : σ)
  | returned
  | raised
  deriving DecidableEq, Repr

/-- A call of `Handle`, with the variables of the source. -/
structure Handle (σ : Type) where
  call : AppCall σ
  received : Bool := false
  bodySent : Bool := false
  respStatus : Int := 200
  respHeaders : List (Text × Text) := []
  respBody : Bytes := []
  /-- the events that `send` has taken -/
  sent : List SendEvent := []

/-- How `Handle` ends. -/
inductive Outcome where
  | response (response : Proto.HttpResponse)
  /-- `context.abort(INTERNAL, …)` -/
  | aborted (details : Str)
  /-- an exception that the call does not catch -/
  | raised
  deriving DecidableEq, Repr

/-- `_build_scope_from_request`. -/
def buildScopeFromRequest (u : Unicode) (request : Proto.HttpRequest) : Scope :=
  buildScope u { headers := request.headers }

/-- The first steps of `HttpBridgeServicer.Handle`. -/
def handle {σ : Type} (u : Unicode) (app : HttpApp σ) (request : Proto.HttpRequest) : Handle σ :=
  { call := .running (app.start (buildScopeFromRequest u request)) }

namespace Handle

variable {σ : Type}

/-- `send`; `none` is the `KeyError` of `event["type"]`. -/
def send (s : Handle σ) : SendEvent → Option (Handle σ)
  | .responseStart status headers =>
    some { s with
      respStatus := status.getD 200
      respHeaders := s.respHeaders ++ headers.getD []
      sent := s.sent ++ [.responseStart status headers] }
  | .responseBody body moreBody =>
    some { s with
      respBody := s.respBody ++ body.getD []
      bodySent := s.bodySent || !moreBody.getD false
      sent := s.sent ++ [.responseBody body moreBody] }
  | .disconnect => some { s with sent := s.sent ++ [.disconnect] }
  | .other (some type) => some { s with sent := s.sent ++ [.other (some type)] }
  | .other none => none

/-- One turn of `await self._app(scope, receive, send)`. -/
def step (app : HttpApp σ) (request : Proto.HttpRequest) (s : Handle σ) : Handle σ :=
  match s.call with
  | .returned => s
  | .raised => s
  | .running x =>
    match app.action x with
    | .send event next failed =>
      match s.send event with
      | some s => { s with call := .running next }
      | none => { s with call := .running failed }
    | .receive resume =>
      if s.received then
        -- waits for `_body_sent`
        if s.bodySent then { s with call := .running (resume .disconnect) } else s
      else
        { s with
          received := true
          call := .running (resume (.request { body := request.body, moreBody := false })) }
    | .returned => { s with call := .returned }
    | .raised => { s with call := .raised }

def run (app : HttpApp σ) (request : Proto.HttpRequest) (turns : Nat) (s : Handle σ) :
    Handle σ := (step app request)^[turns] s

/-- What the call ends with, once the app is over. -/
def outcome (s : Handle σ) : Option Outcome :=
  match s.call with
  | .running _ => none
  | .raised => some (.aborted "ASGI app error".toList)
  | .returned =>
    match toUInt32 s.respStatus, decodeHeaders s.respHeaders with
    | some status, some headers => some (.response { status, headers, body := s.respBody })
    | _, _ => some .raised

/-- The call answers only when the app has returned and the message can carry what
it sent. -/
theorem of_outcome {s : Handle σ} {response : Proto.HttpResponse}
    (h : s.outcome = some (.response response)) :
    s.call = .returned ∧ toUInt32 s.respStatus = some response.status ∧
      decodeHeaders s.respHeaders = some response.headers := by
  simp only [outcome] at h
  split at h
  · cases h
  · cases h
  · rename_i hcall
    split at h
    · rename_i status headers hstatus hheaders
      cases h
      exact ⟨hcall, hstatus, hheaders⟩
    · cases h

end Handle

end Grpcgi.Python.Http
