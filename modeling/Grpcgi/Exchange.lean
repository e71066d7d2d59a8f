import Grpcgi.Pipeline.Rounds
import Grpcgi.Python.Agreement
import Grpcgi.Wasm.HttpEncode
import Grpcgi.Wasm.HttpReply

/-!
# One unary exchange

The WASM HTTP filter and `HttpBridgeServicer.Handle` as one system: the host makes
the callbacks of a request, the filter dispatches a message, the server reads it and
runs the app on it, and its answer goes back through `on_grpc_call_response`. The
steps come in any order; those that nothing is there for change nothing. Answers to
other calls may arrive at any time, and the call may fail at any time: it has 30
seconds.

Unless the call fails, the reply that the client gets is a function of the request and
the app: the app's response to a request with the same headers and the whole body, or
a 502 if the app or the message failed.
-/

namespace Grpcgi

open Python.Http (Handle HttpApp Outcome handle)
open Wasm (Trap)
open Wasm.HttpBridge (Called Env HttpBridgeFilter Reply Request RequestEvent Uncalled badGateway
  encodeHttpRequest handleCall isWebSocketUpgrade onGrpcCallResponse pairHeader replyOf)

/-- The proxy around the filter: how it answers `dispatch_grpc_call`, and whether it
hands out a buffer for an empty message. -/
structure Host where
  env : Env
  emptyBuffer : Bool

/-- What `get_grpc_call_response_body` returns for a message. -/
def Host.responseBody (host : Host) (message : Bytes) : Option Bytes :=
  if message = [] ∧ host.emptyBuffer = false then none else some message

/-- The gRPC status of an answer of `Handle`: OK, INTERNAL or UNKNOWN. -/
def grpcStatus : Outcome → UInt32
  | .response _ => 0
  | .aborted _ => 13
  | .raised => 2

/-- The message of an answer, as the host keeps it. -/
def Host.answerBody (host : Host) : Outcome → Option Bytes
  | .response r => host.responseBody (r.wire none)
  | _ => none

/-- The server's side of the call. -/
inductive ServerCall where
  | idle
  /-- the message is not an `HttpRequest`: INTERNAL -/
  | refused
  /-- `Handle` has had some turns -/
  | running (request : Proto.HttpRequest) (turns : Nat)
  deriving DecidableEq, Repr

structure Exchange where
  /-- the callbacks that the host has yet to make -/
  callbacks : List RequestEvent
  filter : HttpBridgeFilter
  server : ServerCall := .idle
  /-- the call's answer has reached the filter -/
  answered : Bool := false
  /-- the answer was a failure that the server has no part in -/
  failed : Bool := false
  replies : List Reply := []
  trap : Option Trap := none
  deriving DecidableEq

namespace Exchange

/-- What can happen next. -/
inductive Move where
  | callback
  | arrive
  | turn
  | answer
  /-- the call fails: its time is over, or the server is out of reach -/
  | fail (statusCode : UInt32)
  /-- the answer to another call -/
  | stray (tokenId statusCode : UInt32) (body : Option Bytes)
  deriving DecidableEq

/-- The message of a call that the host has accepted. -/
def accepted : Wasm.HttpBridge.Call → Option (UInt32 × Bytes)
  | .dispatchGrpcCall _ _ _ _ message _ result => result.map fun token => (token, message)

section System

variable {σ : Type} (bits : Nat) (host : Host) (u : Unicode) (app : HttpApp σ)

/-- The filter's call, once it is made. -/
def call (s : Exchange) : Option (UInt32 × Bytes) := s.filter.calls.findSome? accepted

/-- The call reaches the server. -/
def arrive (s : Exchange) : Exchange :=
  match s.server, s.call with
  | .idle, some (_, message) =>
    match Proto.readHttpRequest message with
    | some m => { s with server := .running { headers := m.headers, body := m.body } 0 }
    | none => { s with server := .refused }
  | _, _ => s

/-- `Handle` after some turns on a request. -/
def serving (request : Proto.HttpRequest) (turns : Nat) : Handle σ :=
  (handle u app request).run app request turns

/-- A status and a message for the filter. -/
def deliver (tokenId statusCode : UInt32) (body : Option Bytes) (s : Exchange) : Exchange :=
  match onGrpcCallResponse bits tokenId statusCode body s.filter with
  | .error e => { s with trap := some e }
  | .ok reply => { s with replies := s.replies ++ reply.toList }

/-- The server's answer reaches the filter. -/
def answer (s : Exchange) : Exchange :=
  match s.answered, s.call, s.server with
  | false, some (token, _), .refused => { s.deliver bits token 13 none with answered := true }
  | false, some (token, _), .running request turns =>
    match (serving u app request turns).outcome with
    | some outcome =>
      { s.deliver bits token (grpcStatus outcome) (host.answerBody outcome) with answered := true }
    | none => s
  | _, _, _ => s

/-- The host gives the call up; a failure is any status but OK. -/
def fail (statusCode : UInt32) (s : Exchange) : Exchange :=
  match s.answered, s.call with
  | false, some (token, _) =>
    if statusCode = 0 then s
    else { s.deliver bits token statusCode none with answered := true, failed := true }
  | _, _ => s

/-- One move; nothing moves after a trap. -/
def step (s : Exchange) (move : Move) : Exchange :=
  if s.trap.isSome then s
  else
    match move with
    | .callback =>
      match s.callbacks with
      | [] => s
      | e :: callbacks =>
        { s with callbacks, filter := (Wasm.HttpBridge.step host.env s.filter e).2 }
    | .arrive => s.arrive
    | .turn =>
      match s.server with
      | .running request turns => { s with server := .running request (turns + 1) }
      | _ => s
    | .answer => s.answer bits host u app
    | .fail statusCode => s.fail bits statusCode
    | .stray tokenId statusCode body =>
      if some tokenId = s.filter.callToken then s else s.deliver bits tokenId statusCode body

def run (schedule : List Move) (s : Exchange) : Exchange :=
  schedule.foldl (step bits host u app) s

end System

/-- The exchange for a request, before the first callback. -/
def start (cluster authority : Str) (request : Request) : Exchange where
  callbacks := request.events
  filter := { cluster, authority }

end Exchange

/-! ## What the client should get -/

/-- The request as the server reads it: the headers in their order, and the body. -/
def seen (request : Request) : Proto.HttpRequest where
  headers := request.headers.map pairHeader
  body := Request.bytes request.chunks

/-- The filter's reply for a call that failed. -/
def failedReply : Reply := badGateway "grpcgi: gRPC error".toList

/-- The filter's reply for an answer of the server. -/
def Host.reply (host : Host) : Outcome → Reply
  | .response r =>
    if (host.responseBody (r.wire none)).isSome then replyOf r
    else badGateway "grpcgi: empty response".toList
  | _ => failedReply

/-- The message of an answer fits into the filter's memory. -/
def Fits : Outcome → Prop
  | .response r => (r.wire none).length < 2 ^ 31
  | _ => True

namespace Exchange

section Runs

variable {σ : Type} {bits : Nat} {host : Host} {u : Unicode} {app : HttpApp σ}
variable {cluster authority : Str} {request : Request} {s : Exchange}

/-- An answer that fits becomes its reply. -/
theorem deliver_answer (hbits : 32 ≤ bits) {token : UInt32}
    (htoken : s.filter.callToken = some token) {outcome : Outcome} (hfits : Fits outcome) :
    s.deliver bits token (grpcStatus outcome) (host.answerBody outcome) =
      { s with replies := s.replies ++ [host.reply outcome] } := by
  have hreply : onGrpcCallResponse bits token (grpcStatus outcome) (host.answerBody outcome)
      s.filter = .ok (some (host.reply outcome)) := by
    simp only [onGrpcCallResponse, htoken, ne_eq, not_true_eq_false, if_false]
    cases outcome with
    | response r =>
        have hdecode := Wasm.HttpBridge.decodeHttpResponse_any hbits hfits
        simp only [grpcStatus, not_true_eq_false, if_false, Host.answerBody, Host.reply,
          Host.responseBody]
        split
        · rename_i hempty
          simp only [hempty, Option.isSome_none, Bool.false_eq_true, if_false]
        · rename_i raw hraw
          split at hraw
          · cases hraw
          · rename_i hpresent
            obtain rfl := Option.some.inj hraw
            simp only [hdecode, if_neg hpresent, Option.isSome_some, if_true]
    | aborted details => rfl
    | raised => rfl
  rw [deliver, hreply]
  rfl

/-- A failing status becomes a 502, whatever comes with it. -/
theorem deliver_failure {token statusCode : UInt32} (htoken : s.filter.callToken = some token)
    (hstatus : statusCode ≠ 0) (body : Option Bytes) :
    s.deliver bits token statusCode body = { s with replies := s.replies ++ [failedReply] } := by
  have hreply : onGrpcCallResponse bits token statusCode body s.filter =
      .ok (some failedReply) := by
    simp only [onGrpcCallResponse, htoken, ne_eq, not_true_eq_false, if_false, hstatus,
      not_false_eq_true, if_true, failedReply]
  rw [deliver, hreply]
  rfl

theorem deliver_stray {token : UInt32} (htoken : some token ≠ s.filter.callToken)
    (statusCode : UInt32) (body : Option Bytes) : s.deliver bits token statusCode body = s := by
  rw [deliver, Wasm.HttpBridge.onGrpcCallResponse_stray htoken]
  simp

/-- A delivery is about the replies alone. -/
theorem deliver_keeps (bits : Nat) (token statusCode : UInt32) (body : Option Bytes)
    (s : Exchange) : (s.deliver bits token statusCode body).callbacks = s.callbacks ∧
      (s.deliver bits token statusCode body).filter = s.filter ∧
      (s.deliver bits token statusCode body).server = s.server ∧
      (s.deliver bits token statusCode body).failed = s.failed := by
  simp only [deliver]
  split <;> exact ⟨rfl, rfl, rfl, rfl⟩

/-- Any delivery makes at most one reply. -/
theorem deliver_length (bits : Nat) (token statusCode : UInt32) (body : Option Bytes)
    (s : Exchange) :
    (s.deliver bits token statusCode body).replies.length ≤ s.replies.length + 1 := by
  simp only [deliver]
  split
  · exact Nat.le_succ _
  · rename_i reply _
    cases reply <;> simp

/-- What every exchange keeps. -/
structure Sound (host : Host) (u : Unicode) (app : HttpApp σ) (cluster authority : Str)
    (request : Request) (s : Exchange) : Prop where
  filter : ∃ before, before ++ s.callbacks = request.events ∧
    s.filter = Wasm.HttpBridge.run host.env { cluster, authority } before
  server : s.server = .idle ∨ ∃ turns, s.server = .running (seen request) turns ∧
    s.callbacks = [] ∧ Called host.env cluster authority request s.filter ∧
      (host.env.dispatchGrpcCall []).isSome
  unanswered : s.answered = false → s.failed = false ∧ s.replies = [] ∧ s.trap = none
  answered : s.answered = true → s.failed = false → s.replies.length ≤ 1 ∧
    ∃ turns outcome, s.server = .running (seen request) turns ∧
      (serving u app (seen request) turns).outcome = some outcome ∧
      (Fits outcome → s.trap = none ∧ s.replies = [host.reply outcome])
  failed : s.failed = true → s.callbacks = [] ∧
    Called host.env cluster authority request s.filter ∧
    (host.env.dispatchGrpcCall []).isSome ∧ s.trap = none ∧ s.replies = [failedReply]

theorem sound_start : Sound host u app cluster authority request
    (start cluster authority request) where
  filter := ⟨[], rfl, rfl⟩
  server := .inl rfl
  unanswered := fun _ => ⟨rfl, rfl, rfl⟩
  answered := fun h => absurd h (by simp [start])
  failed := fun h => absurd h (by simp [start])

namespace Sound

theorem uncalled_or_called (h : Sound host u app cluster authority request s) :
    Uncalled s.filter ∨ s.callbacks = [] ∧ Called host.env cluster authority request s.filter := by
  obtain ⟨before, hevents, hfilter⟩ := h.filter
  obtain huncalled | ⟨rfl, hcalled⟩ := Wasm.HttpBridge.uncalled_or_called host.env
    cluster authority ⟨s.callbacks, hevents⟩
  · exact .inl (hfilter ▸ huncalled)
  · exact .inr ⟨List.append_right_eq_self.mp hevents, hfilter ▸ hcalled⟩

/-- The message of the call is the request. -/
theorem call_eq (h : Sound host u app cluster authority request s) {token : UInt32}
    {message : Bytes} (hcall : s.call = some (token, message)) :
    s.callbacks = [] ∧ Called host.env cluster authority request s.filter ∧
      (host.env.dispatchGrpcCall []).isSome ∧ s.filter.callToken = some token ∧
      message = encodeHttpRequest request.headers (Request.bytes request.chunks) := by
  obtain ⟨hcalls, -⟩ | ⟨hover, hcalled⟩ := h.uncalled_or_called
  · rw [call, hcalls] at hcall
    cases hcall
  · have hcalls := hcall
    rw [call, hcalled.calls] at hcalls
    simp only [handleCall, List.findSome?_cons, accepted] at hcalls
    cases hdispatch : host.env.dispatchGrpcCall [] with
    | none =>
        rw [hdispatch] at hcalls
        cases hcalls
    | some token' =>
        rw [hdispatch] at hcalls
        obtain ⟨rfl, rfl⟩ := Prod.mk.inj (Option.some.inj hcalls)
        exact ⟨hover, hcalled, rfl, hcalled.callToken.trans hdispatch, rfl⟩

theorem callback (h : Sound host u app cluster authority request s) {e : RequestEvent}
    {callbacks : List RequestEvent} (hcallbacks : s.callbacks = e :: callbacks) :
    Sound host u app cluster authority request
      { s with callbacks, filter := (Wasm.HttpBridge.step host.env s.filter e).2 } where
  filter := by
    obtain ⟨before, hevents, hfilter⟩ := h.filter
    refine ⟨before ++ [e], ?_, ?_⟩
    · rw [← hevents, hcallbacks, List.append_assoc, List.singleton_append]
    · rw [Wasm.HttpBridge.run_append, ← hfilter]
      rfl
  server := by
    obtain hidle | ⟨turns, -, hover, -⟩ := h.server
    · exact .inl hidle
    · rw [hcallbacks] at hover
      cases hover
  unanswered := h.unanswered
  answered := h.answered
  failed := by
    intro hfailed
    have hover := (h.failed hfailed).1
    rw [hcallbacks] at hover
    cases hover

theorem arrive (h : Sound host u app cluster authority request s)
    (hsize : (encodeHttpRequest request.headers (Request.bytes request.chunks)).length < 2 ^ 64) :
    Sound host u app cluster authority request s.arrive := by
  simp only [Exchange.arrive]
  split
  · rename_i token message hidle hcall
    obtain ⟨hover, hcalled, haccepted, -, rfl⟩ := h.call_eq hcall
    rw [Wasm.HttpBridge.readHttpRequest_encode hsize]
    refine ⟨h.filter, .inr ⟨0, rfl, hover, hcalled, haccepted⟩, h.unanswered, ?_, h.failed⟩
    intro hanswered hserved
    obtain ⟨-, turns, outcome, hserver, -⟩ := h.answered hanswered hserved
    rw [hidle] at hserver
    cases hserver
  · exact h

/-- An app that is over has its answer, whatever turns follow. -/
theorem outcome_succ {request : Proto.HttpRequest} {turns : Nat} {outcome : Outcome}
    (h : (serving u app request turns).outcome = some outcome) :
    (serving u app request (turns + 1)).outcome = some outcome := by
  have hsucc : serving u app request (turns + 1) =
      (serving u app request turns).step app request := Function.iterate_succ_apply' _ _ _
  rw [hsucc]
  generalize serving u app request turns = s at h ⊢
  have hstep : s.step app request = s := by
    cases hcall : s.call with
    | running x => simp only [Handle.outcome, hcall] at h; cases h
    | returned => simp only [Handle.step, hcall]
    | raised => simp only [Handle.step, hcall]
  rw [hstep]
  exact h

theorem turn (h : Sound host u app cluster authority request s) {turns : Nat}
    {seen' : Proto.HttpRequest} (hserver : s.server = .running seen' turns) :
    Sound host u app cluster authority request
      { s with server := .running seen' (turns + 1) } where
  filter := h.filter
  server := by
    obtain hidle | ⟨turns', hrunning, hover, hcalled⟩ := h.server
    · rw [hserver] at hidle
      cases hidle
    · rw [hserver] at hrunning
      obtain ⟨rfl, rfl⟩ := ServerCall.running.inj hrunning
      exact .inr ⟨turns + 1, rfl, hover, hcalled⟩
  unanswered := h.unanswered
  answered := by
    intro hanswered hserved
    obtain ⟨hlength, turns', outcome, hrunning, houtcome, hreply⟩ := h.answered hanswered hserved
    rw [hserver] at hrunning
    obtain ⟨rfl, rfl⟩ := ServerCall.running.inj hrunning
    exact ⟨hlength, turns + 1, outcome, rfl, outcome_succ houtcome, hreply⟩
  failed := h.failed

theorem answer (h : Sound host u app cluster authority request s) (hbits : 32 ≤ bits) :
    Sound host u app cluster authority request (s.answer bits host u app) := by
  simp only [Exchange.answer]
  split
  · rename_i hrefused
    obtain hidle | ⟨turns, hrunning, -⟩ := h.server
    · rw [hrefused] at hidle
      cases hidle
    · rw [hrefused] at hrunning
      cases hrunning
  · rename_i token message seen' turns hnot hcall hserver
    obtain hidle | ⟨turns', hrunning, hover, hcalled⟩ := h.server
    · rw [hserver] at hidle
      cases hidle
    rw [hserver] at hrunning
    obtain ⟨rfl, rfl⟩ := ServerCall.running.inj hrunning
    split
    · rename_i outcome houtcome
      obtain ⟨-, -, -, htoken, -⟩ := h.call_eq hcall
      obtain ⟨hserved, hnone, htrap⟩ := h.unanswered hnot
      have hkeeps := deliver_keeps bits token (grpcStatus outcome) (host.answerBody outcome) s
      obtain ⟨hcallbacks, hfilter, hsame, hfailed⟩ := hkeeps
      constructor
      · simp only [hcallbacks, hfilter]
        exact h.filter
      · simp only [hcallbacks, hfilter, hsame]
        exact .inr ⟨turns, hserver, hover, hcalled⟩
      · intro h
        cases h
      · intro _ _
        have hlength := deliver_length bits token (grpcStatus outcome) (host.answerBody outcome) s
        rw [hnone] at hlength
        refine ⟨hlength, turns, outcome, hsame.trans hserver, houtcome, fun hfits => ?_⟩
        rw [deliver_answer hbits htoken hfits]
        exact ⟨htrap, congrArg (· ++ _) hnone⟩
      · intro h
        simp only [hfailed, hserved, Bool.false_eq_true] at h
    · exact h
  · exact h

theorem fail (h : Sound host u app cluster authority request s) (statusCode : UInt32) :
    Sound host u app cluster authority request (s.fail bits statusCode) := by
  simp only [Exchange.fail]
  split
  · rename_i token message hnot hcall
    split
    · exact h
    · rename_i hstatus
      obtain ⟨hover, hcalled, haccepted, htoken, -⟩ := h.call_eq hcall
      obtain ⟨-, hnone, htrap⟩ := h.unanswered hnot
      rw [deliver_failure htoken hstatus, hnone, List.nil_append]
      refine ⟨h.filter, h.server, ?_, ?_, ?_⟩
      · intro h
        cases h
      · intro _ h
        cases h
      · intro _
        exact ⟨hover, hcalled, haccepted, htrap, rfl⟩
  · exact h

theorem step (h : Sound host u app cluster authority request s) (hbits : 32 ≤ bits)
    (hsize : (encodeHttpRequest request.headers (Request.bytes request.chunks)).length < 2 ^ 64)
    (move : Move) :
    Sound host u app cluster authority request (s.step bits host u app move) := by
  simp only [Exchange.step]
  split
  · exact h
  · cases move with
    | callback =>
        simp only
        split
        · exact h
        · rename_i hcallbacks
          exact h.callback hcallbacks
    | arrive => exact h.arrive hsize
    | turn =>
        simp only
        split
        · rename_i hserver
          exact h.turn hserver
        · exact h
    | answer => exact h.answer hbits
    | fail statusCode => exact h.fail statusCode
    | stray tokenId statusCode body =>
        simp only
        split
        · exact h
        · rename_i htoken
          rw [deliver_stray htoken]
          exact h

theorem run (h : Sound host u app cluster authority request s) (hbits : 32 ≤ bits)
    (hsize : (encodeHttpRequest request.headers (Request.bytes request.chunks)).length < 2 ^ 64)
    (schedule : List Move) :
    Sound host u app cluster authority request (s.run bits host u app schedule) := by
  induction schedule generalizing s with
  | nil => exact h
  | cons move schedule ih => exact ih (h.step hbits hsize move)

end Sound

/-- Without a move that fails the call it does not fail. -/
theorem failed_step (move : Move) (h : (s.step bits host u app move).failed = true) :
    s.failed = true ∨ ∃ statusCode ≠ 0, move = .fail statusCode := by
  simp only [Exchange.step] at h
  split at h
  · exact .inl h
  · cases move with
    | callback =>
        simp only at h
        split at h <;> exact .inl h
    | arrive =>
        simp only [Exchange.arrive] at h
        split at h
        · split at h <;> exact .inl h
        · exact .inl h
    | turn =>
        simp only at h
        split at h <;> exact .inl h
    | answer =>
        simp only [Exchange.answer] at h
        split at h
        · rw [(deliver_keeps ..).2.2.2] at h
          exact .inl h
        · split at h
          · rw [(deliver_keeps ..).2.2.2] at h
            exact .inl h
          · exact .inl h
        · exact .inl h
    | fail statusCode =>
        by_cases hstatus : statusCode = 0
        · simp only [Exchange.fail, hstatus, if_true] at h
          split at h <;> exact .inl h
        · exact .inr ⟨statusCode, hstatus, rfl⟩
    | stray tokenId statusCode body =>
        simp only at h
        split at h
        · exact .inl h
        · rw [(deliver_keeps ..).2.2.2] at h
          exact .inl h

theorem failed_run {schedule : List Move} (h : (s.run bits host u app schedule).failed = true) :
    s.failed = true ∨ ∃ statusCode ≠ 0, .fail statusCode ∈ schedule := by
  induction schedule generalizing s with
  | nil => exact .inl h
  | cons move schedule ih =>
      obtain hthen | ⟨statusCode, hstatus, hmem⟩ := ih h
      · obtain hnow | ⟨statusCode, hstatus, rfl⟩ := failed_step move hthen
        · exact .inl hnow
        · exact .inr ⟨statusCode, hstatus, List.mem_cons_self⟩
      · exact .inr ⟨statusCode, hstatus, List.mem_cons_of_mem _ hmem⟩

/-! ## Progress -/

theorem outcome_unique {request : Proto.HttpRequest} {n m : Nat} {o o' : Outcome}
    (hn : (serving u app request n).outcome = some o)
    (hm : (serving u app request m).outcome = some o') : o = o' := by
  have hle : ∀ {n m o}, n ≤ m → (serving u app request n).outcome = some o →
      (serving u app request m).outcome = some o := by
    intro n m o hnm h
    induction hnm with
    | refl => exact h
    | step _ ih => exact Sound.outcome_succ ih
  obtain hnm | hmn := Nat.le_total n m
  · exact Option.some.inj ((hle hnm hn).symm.trans hm)
  · exact Option.some.inj (hn.symm.trans (hle hmn hm))

/-- The moves that are left for an app that ends within `n` turns. -/
def left (n : Nat) (s : Exchange) : Nat :=
  if s.answered then 0
  else
    match s.server with
    | .running _ turns => 1 + (n - turns)
    | _ => 2 + n + s.callbacks.length

/-- The move that everything waits for. -/
def next (u : Unicode) (app : HttpApp σ) (s : Exchange) : Move :=
  if s.callbacks ≠ [] then .callback
  else
    match s.server with
    | .running request turns =>
      if (serving u app request turns).outcome.isSome then .answer else .turn
    | _ => .arrive

/-- An exchange whose app ends in time and with an answer that fits. -/
structure Ending (host : Host) (u : Unicode) (app : HttpApp σ) (cluster authority : Str)
    (request : Request) (n : Nat) (outcome : Outcome) : Prop where
  plain : isWebSocketUpgrade request.headers = false
  untrailed : ¬ request.HasTrailers
  accepted : (host.env.dispatchGrpcCall []).isSome
  size : (encodeHttpRequest request.headers (Request.bytes request.chunks)).length < 2 ^ 64
  outcome_eq : (serving u app (seen request) n).outcome = some outcome
  fits : Fits outcome

namespace Ending

variable {n : Nat} {outcome : Outcome}

theorem trap_none (he : Ending host u app cluster authority request n outcome)
    (h : Sound host u app cluster authority request s) : s.trap = none := by
  cases hanswered : s.answered with
  | false => exact (h.unanswered hanswered).2.2
  | true =>
      cases hfailed : s.failed with
      | true => exact (h.failed hfailed).2.2.2.1
      | false =>
          obtain ⟨-, turns, outcome', -, houtcome, hreply⟩ := h.answered hanswered hfailed
          obtain rfl := outcome_unique he.outcome_eq houtcome
          exact (hreply he.fits).1

/-- An app that has had its turns is over. -/
theorem ended_by (he : Ending host u app cluster authority request n outcome) {turns : Nat}
    (hturns : n ≤ turns) : (serving u app (seen request) turns).outcome.isSome := by
  induction hturns with
  | refl => rw [he.outcome_eq]; rfl
  | step _ ih =>
      obtain ⟨o, ho⟩ := Option.isSome_iff_exists.mp ih
      rw [Sound.outcome_succ ho]
      rfl

/-- After the last callback the call is made. -/
theorem call_made (he : Ending host u app cluster authority request n outcome)
    (h : Sound host u app cluster authority request s) (hover : s.callbacks = []) :
    ∃ token, s.call = some (token,
      encodeHttpRequest request.headers (Request.bytes request.chunks)) := by
  obtain ⟨before, hevents, hfilter⟩ := h.filter
  rw [hover, List.append_nil] at hevents
  subst hevents
  have hcalled := Wasm.HttpBridge.called_events host.env cluster authority he.plain he.untrailed
  rw [← hfilter] at hcalled
  obtain ⟨token, htoken⟩ := Option.isSome_iff_exists.mp he.accepted
  refine ⟨token, ?_⟩
  rw [call, hcalled.calls]
  simp only [handleCall, List.findSome?_cons, Exchange.accepted, htoken, Option.map_some]

theorem left_callback (h : Sound host u app cluster authority request s)
    (hanswered : s.answered = false) {e : RequestEvent} {callbacks : List RequestEvent}
    (hcallbacks : s.callbacks = e :: callbacks) :
    left n { s with callbacks, filter := (Wasm.HttpBridge.step host.env s.filter e).2 } <
      left n s := by
  obtain hidle | ⟨turns, -, hover, -⟩ := h.server
  · simp only [left, hanswered, hidle, hcallbacks, List.length_cons, Bool.false_eq_true, if_false]
    omega
  · rw [hcallbacks] at hover
    cases hover

theorem left_arrive (he : Ending host u app cluster authority request n outcome)
    (h : Sound host u app cluster authority request s) (hanswered : s.answered = false)
    (hidle : s.server = .idle) (hover : s.callbacks = []) :
    left n s.arrive < left n s := by
  obtain ⟨token, hcall⟩ := he.call_made h hover
  have harrive : s.arrive = { s with server := .running (seen request) 0 } := by
    simp only [Exchange.arrive, hidle, hcall, Wasm.HttpBridge.readHttpRequest_encode he.size]
    rfl
  simp only [harrive, left, hanswered, hidle, hover, Bool.false_eq_true, if_false]
  omega

theorem left_turn {request' : Proto.HttpRequest} {turns : Nat} (hanswered : s.answered = false)
    (hserver : s.server = .running request' turns) (hturns : turns < n) :
    left n { s with server := .running request' (turns + 1) } < left n s := by
  simp only [left, hanswered, hserver, Bool.false_eq_true, if_false]
  omega

theorem left_answer (he : Ending host u app cluster authority request n outcome)
    (h : Sound host u app cluster authority request s) (hanswered : s.answered = false)
    {turns : Nat} (hserver : s.server = .running (seen request) turns)
    (hend : (serving u app (seen request) turns).outcome.isSome) :
    left n (s.answer bits host u app) < left n s := by
  obtain hidle | ⟨-, -, hover, -⟩ := h.server
  · rw [hserver] at hidle
    cases hidle
  obtain ⟨token, hcall⟩ := he.call_made h hover
  obtain ⟨o, ho⟩ := Option.isSome_iff_exists.mp hend
  have hdone : (s.answer bits host u app).answered = true := by
    simp only [Exchange.answer, hanswered, hcall, hserver, ho]
  have hafter : left n (s.answer bits host u app) = 0 := by simp only [left, hdone, if_true]
  have hbefore : 0 < left n s := by
    simp only [left, hanswered, hserver, Bool.false_eq_true, if_false]
    omega
  omega

variable (bits host u app) in
/-- An answer is given once. -/
theorem answer_cases (s : Exchange) :
    s.answer bits host u app = s ∨ (s.answer bits host u app).answered = true := by
  simp only [Exchange.answer]
  split
  · exact .inr rfl
  · split
    · exact .inr rfl
    · exact .inl rfl
  · exact .inl rfl

variable (bits) in
theorem fail_cases (statusCode : UInt32) (s : Exchange) :
    s.fail bits statusCode = s ∨ (s.fail bits statusCode).answered = true := by
  simp only [Exchange.fail]
  split
  · split
    · exact .inl rfl
    · exact .inr rfl
  · exact .inl rfl

variable (bits host u app) in
theorem answered_step (hanswered : s.answered = true) (move : Move) :
    (s.step bits host u app move).answered = true := by
  simp only [Exchange.step]
  split
  · exact hanswered
  · cases move with
    | callback =>
        simp only
        split <;> exact hanswered
    | arrive =>
        simp only [Exchange.arrive]
        split
        · split <;> exact hanswered
        · exact hanswered
    | turn =>
        simp only
        split <;> exact hanswered
    | answer => simp only [Exchange.answer, hanswered]
    | fail statusCode => simp only [Exchange.fail, hanswered]
    | stray tokenId statusCode body =>
        simp only
        split
        · exact hanswered
        · simp only [deliver]
          split <;> exact hanswered

theorem arrive_cases (he : Ending host u app cluster authority request n outcome)
    (h : Sound host u app cluster authority request s) (hanswered : s.answered = false) :
    s.arrive = s ∨ left n s.arrive < left n s := by
  cases hserver : s.server with
  | idle =>
      cases hcall : s.call with
      | none =>
          left
          simp only [Exchange.arrive, hserver, hcall]
      | some p => exact .inr (he.left_arrive h hanswered hserver (h.call_eq hcall).1)
  | refused =>
      left
      simp only [Exchange.arrive, hserver]
  | running request' turns =>
      left
      simp only [Exchange.arrive, hserver]

/-- A turn of an app that is over leaves everything waiting for the answer. -/
theorem next_turn (he : Ending host u app cluster authority request n outcome)
    (h : Sound host u app cluster authority request s) {request' : Proto.HttpRequest}
    {turns : Nat} (hserver : s.server = .running request' turns) (hturns : n ≤ turns) :
    left n { s with server := .running request' (turns + 1) } = left n s ∧
      next u app { s with server := .running request' (turns + 1) } = next u app s := by
  obtain hidle | ⟨turns', hrunning, hover, -⟩ := h.server
  · rw [hserver] at hidle
    cases hidle
  rw [hserver] at hrunning
  obtain ⟨rfl, rfl⟩ := ServerCall.running.inj hrunning
  have hzero : n - turns = 0 ∧ n - (turns + 1) = 0 := by omega
  have hnow := he.ended_by hturns
  have hthen := he.ended_by (Nat.le_succ_of_le hturns)
  constructor
  · simp only [left, hserver, hzero]
  · simp only [next, hserver, hnow, hthen, if_true]

theorem left_pos (hanswered : s.answered = false) : 0 < left n s := by
  simp only [left, hanswered, Bool.false_eq_true, if_false]
  split <;> omega

theorem progress (he : Ending host u app cluster authority request n outcome)
    (hbits : 32 ≤ bits) :
    Pipeline.Progress (step bits host u app) (Sound host u app cluster authority request)
      (left n) (next u app) where
  inv := fun _ move h => h.step hbits he.size move
  waits := by
    intro s move h
    have htrap := he.trap_none h
    cases hanswered : s.answered with
    | true =>
        right
        have hdone := answered_step bits host u app hanswered move
        simp only [left, hanswered, hdone, if_true, true_or, and_self]
    | false =>
        simp only [Exchange.step, htrap, Option.isSome_none, Bool.false_eq_true, if_false]
        cases move with
        | callback =>
            simp only
            split
            · exact .inr ⟨rfl, .inr rfl⟩
            · rename_i hcallbacks
              exact .inl (left_callback h hanswered hcallbacks)
        | arrive =>
            obtain hsame | hless := he.arrive_cases h hanswered
            · rw [hsame]
              exact .inr ⟨rfl, .inr rfl⟩
            · exact .inl hless
        | turn =>
            simp only
            split
            · rename_i request' turns hserver
              by_cases hturns : turns < n
              · exact .inl (left_turn hanswered hserver hturns)
              · obtain ⟨hleft, hnext⟩ := he.next_turn h hserver (Nat.le_of_not_lt hturns)
                exact .inr ⟨hleft, .inr hnext⟩
            · exact .inr ⟨rfl, .inr rfl⟩
        | answer =>
            obtain hsame | hdone := answer_cases bits host u app s
            · rw [hsame]
              exact .inr ⟨rfl, .inr rfl⟩
            · left
              have hpos : 0 < left n s := left_pos hanswered
              simpa only [left, hdone, if_true] using hpos
        | fail statusCode =>
            simp only
            obtain hsame | hdone := fail_cases bits statusCode s
            · rw [hsame]
              exact .inr ⟨rfl, .inr rfl⟩
            · left
              have hpos : 0 < left n s := left_pos hanswered
              simpa only [left, hdone, if_true] using hpos
        | stray tokenId statusCode body =>
            simp only
            split
            · exact .inr ⟨rfl, .inr rfl⟩
            · rename_i htoken
              rw [deliver_stray htoken]
              exact .inr ⟨rfl, .inr rfl⟩
  moves := by
    intro s h hleft
    have hanswered : s.answered = false := by
      by_contra hdone
      have hdone : s.answered = true := Bool.not_eq_false _ ▸ hdone
      exact hleft (by simp only [left, hdone, if_true])
    simp only [Exchange.step, he.trap_none h, Option.isSome_none, Bool.false_eq_true, if_false,
      next]
    cases hcallbacks : s.callbacks with
    | cons e callbacks =>
        simp only [ne_eq, reduceCtorEq, not_false_eq_true, if_true]
        exact left_callback h hanswered hcallbacks
    | nil =>
        simp only [ne_eq, not_true_eq_false, if_false]
        obtain hidle | ⟨turns, hserver, -⟩ := h.server
        · simp only [hidle]
          exact he.left_arrive h hanswered hidle hcallbacks
        · simp only [hserver]
          by_cases hend : (serving u app (seen request) turns).outcome.isSome
          · simp only [hend, if_true]
            exact he.left_answer h hanswered hserver hend
          · simp only [hend, Bool.false_eq_true, if_false]
            apply left_turn hanswered hserver
            by_contra hturns
            exact hend (he.ended_by (Nat.le_of_not_lt hturns))

end Ending

end Runs

end Exchange

/-! ## The exchange as a whole -/

/-- A response with the status, the headers and the body that the app sent. -/
structure Carries (events : List Python.Http.SendEvent) (r : Proto.HttpResponse) : Prop where
  status : Python.Http.toUInt32 (Python.Http.sentStatus events) = some r.status
  headers : Python.Http.decodeHeaders (events.flatMap Python.Http.SendEvent.headers) =
    some r.headers
  body : r.body = events.flatMap Python.Http.SendEvent.body

/-- The client's reply, if it has got one, is the one for the app's answer to this
request, or the one for a call that failed under way. -/
inductive Replied {σ : Type} (host : Host) (u : Unicode) (app : HttpApp σ) (request : Request)
    (schedule : List Exchange.Move) (s : Exchange) : Prop where
  | silent (hreplies : s.replies = []) (htrap : s.trap = none)
  | failed (statusCode : UInt32) (hfailed : .fail statusCode ∈ schedule)
      (hstatus : statusCode ≠ 0)
      (hplain : isWebSocketUpgrade request.headers = false)
      (huntrailed : ¬ request.HasTrailers)
      (haccepted : (host.env.dispatchGrpcCall []).isSome)
      (hreplies : s.replies = [failedReply]) (htrap : s.trap = none)
  | answered (turns : Nat) (outcome : Outcome)
      (hplain : isWebSocketUpgrade request.headers = false)
      (huntrailed : ¬ request.HasTrailers)
      (haccepted : (host.env.dispatchGrpcCall []).isSome)
      (houtcome : (Exchange.serving u app (seen request) turns).outcome = some outcome)
      (hcarries : ∀ r, outcome = .response r →
        Carries (Exchange.serving u app (seen request) turns).sent r)
      (honce : s.replies.length ≤ 1)
      (hreply : Fits outcome → s.replies = [host.reply outcome] ∧ s.trap = none)

/-- A request with a body in two chunks. -/
def postRequest : Request :=
  ⟨[(":method".toList, "POST".toList), (":path".toList, "/".toList)],
    .chunks [some [0x61]] (some [0x62])⟩

def acceptingHost : Host := ⟨⟨fun _ => some 7⟩, false⟩

theorem postRequest_size :
    (encodeHttpRequest postRequest.headers (Request.bytes postRequest.chunks)).length < 2 ^ 64 :=
  Nat.lt_trans (show _ < 2 ^ 10 by decide) (by decide)

/-- Every request without trailers that is not an upgrade gets its reply, if the host
accepts the call and the app comes to an end, under every schedule that goes on
giving each party its turns. Only a call that fails has another one. -/
theorem exchange_replies {σ : Type} {bits : Nat} {host : Host} {u : Unicode} {app : HttpApp σ}
    {cluster authority : Str} {request : Request} {n : Nat} {outcome : Outcome}
    (hbits : 32 ≤ bits)
    (hending : Exchange.Ending host u app cluster authority request n outcome)
    (rounds : List (List Exchange.Move)) (hlength : request.events.length + n + 2 ≤ rounds.length)
    (hfair : ∀ round ∈ rounds,
      .callback ∈ round ∧ .arrive ∈ round ∧ .turn ∈ round ∧ .answer ∈ round) :
    let s := (Exchange.start cluster authority request).run bits host u app rounds.flatten
    s.replies = [host.reply outcome] ∨
      (∃ statusCode ≠ 0, .fail statusCode ∈ rounds.flatten) ∧ s.replies = [failedReply] := by
  have hstart : Exchange.Sound host u app cluster authority request
      (Exchange.start cluster authority request) := Exchange.sound_start
  have hleft : Exchange.left n (rounds.flatten.foldl (Exchange.step bits host u app)
      (Exchange.start cluster authority request)) = 0 := by
    apply (hending.progress hbits).rounds hstart
    · intro round hround s
      obtain ⟨hcallback, harrive, hturn, hanswer⟩ := hfair round hround
      simp only [Exchange.next]
      split
      · exact hcallback
      · split
        · split
          · exact hanswer
          · exact hturn
        · exact harrive
    · simp only [Exchange.left, Exchange.start, Bool.false_eq_true, if_false]
      omega
  have hsound := hstart.run hbits hending.size rounds.flatten
  have hrun : ((Exchange.start cluster authority request).run bits host u app
      rounds.flatten).failed = true → _ := Exchange.failed_run
  simp only [Exchange.run] at hsound hrun ⊢
  generalize rounds.flatten.foldl _ _ = s at hleft hsound hrun ⊢
  have hanswered : s.answered = true := by
    by_contra hnot
    have hnot : s.answered = false := Bool.not_eq_true _ ▸ hnot
    exact Nat.ne_of_gt (Exchange.Ending.left_pos hnot) hleft
  cases hfailed : s.failed with
  | true =>
      obtain hstarted | hmove := hrun hfailed
      · cases hstarted
      · exact .inr ⟨hmove, (hsound.failed hfailed).2.2.2.2⟩
  | false =>
      obtain ⟨-, turns, outcome', -, houtcome, hreply⟩ := hsound.answered hanswered hfailed
      obtain rfl := Exchange.outcome_unique hending.outcome_eq houtcome
      exact .inl (hreply hending.fits).2

/-- The same request, in rounds: the client gets the app's response. -/
theorem exchange_replies_post :
    ((Exchange.start "grpcgi".toList [] postRequest).run 32 acceptingHost .ascii
        (Python.Http.sending Python.Http.threeChunks.events false)
        (List.replicate 10 [.callback, .arrive, .turn, .answer]).flatten).replies =
      [⟨200, [("a".toList, "b".toList)], [0x68, 0x69]⟩] := by
  have hending : Exchange.Ending acceptingHost .ascii
      (Python.Http.sending Python.Http.threeChunks.events false) "grpcgi".toList [] postRequest 5
      (.response ⟨200, [⟨"a".toList, .value "b".toList⟩], [0x68, 0x69]⟩) :=
    ⟨by decide, by rintro ⟨chunks, ⟨⟩⟩, rfl, postRequest_size, by decide,
      Nat.lt_trans (show _ < 2 ^ 10 by decide) (by decide)⟩
  have hreplies := exchange_replies (Nat.le_refl 32) hending
    (List.replicate 10 [.callback, .arrive, .turn, .answer]) (by decide) (by
      intro round hround
      rw [List.eq_of_mem_replicate hround]
      simp)
  refine hreplies.resolve_right ?_
  rintro ⟨⟨statusCode, -, hfailed⟩, -⟩
  obtain ⟨round, hround, hmem⟩ := List.mem_flatten.mp hfailed
  rw [List.eq_of_mem_replicate hround] at hmem
  simp at hmem

end Grpcgi
