import Grpcgi.Wasm.HttpBridge

/-!
# One dispatch for each request

When `dispatch_handle` runs in the callbacks of a request, and with what. The
filter learns that a request has ended from the `end_of_stream` flag of a
callback. Trailers end a request too, but the filter has no callback for them.
-/

namespace Grpcgi.Wasm.HttpBridge

namespace Request

def chunks (request : Request) : List (Option Bytes) :=
  match request.body with
  | .none => []
  | .chunks chunks last => chunks ++ [last]
  | .trailed chunks => chunks

/-- A chunk that the host has no buffer for is empty. -/
def bytes (chunks : List (Option Bytes)) : Bytes := chunks.flatMap fun chunk => chunk.getD []

def HasTrailers (request : Request) : Prop := ∃ chunks, request.body = .trailed chunks

end Request

section Requests

variable (env : Env) (cluster authority : Str)

/-- The call that a request should lead to. -/
def handleCall (request : Request) : Call :=
  .dispatchGrpcCall cluster "grpcgi.v1.HttpBridge".toList "Handle".toList
    (if authority.isEmpty then [] else [(":authority".toList, utf8Encode authority)])
    (encodeHttpRequest request.headers (Request.bytes request.chunks)) 30 (env.dispatchGrpcCall [])

/-- `dispatch_handle` runs in the last callback of a request and in no other one,
with all the headers and the whole body. -/
def DispatchedOnce (request : Request) : Prop :=
  (∀ before, before <+: request.events → before ≠ request.events →
    (run env { cluster, authority } before).calls = []) ∧
  (run env { cluster, authority } request.events).calls =
    [handleCall env cluster authority request]

/-- The filter that waits for more of a body. -/
def waiting (headers : List (Str × Str)) (body : Bytes) : HttpBridgeFilter :=
  { cluster, authority, reqHeaders := headers, reqBody := body, bodyPending := true }

variable {cluster authority} {headers : List (Str × Str)}

theorem step_headers (hplain : isWebSocketUpgrade headers = false) :
    (step env { cluster, authority } (.headers headers false)).2 =
      waiting cluster authority headers [] := by
  simp only [step, onHttpRequestHeaders, hplain, Bool.false_eq_true, if_false, waiting]

/-- A chunk that is not the last is kept. -/
theorem step_chunk (body : Bytes) (chunk : Option Bytes) :
    (step env (waiting cluster authority headers body) (.body chunk false)).2 =
      waiting cluster authority headers (body ++ chunk.getD []) := by
  cases chunk <;> simp [step, onHttpRequestBody, waiting]

theorem run_append (s : HttpBridgeFilter) (before after : List RequestEvent) :
    run env s (before ++ after) = run env (run env s before) after := List.foldl_append

theorem run_chunks (body : Bytes) (chunks : List (Option Bytes)) :
    run env (waiting cluster authority headers body) (chunks.map (.body · false)) =
      waiting cluster authority headers (body ++ Request.bytes chunks) := by
  induction chunks generalizing body with
  | nil => simp [run, Request.bytes]
  | cons chunk chunks ih =>
      have hstep : (step env (waiting cluster authority headers body) (.body chunk false)).2 =
          waiting cluster authority headers (body ++ chunk.getD []) := step_chunk env body chunk
      calc
        run env (waiting cluster authority headers body) ((chunk :: chunks).map (.body · false)) =
            run env (step env (waiting cluster authority headers body) (.body chunk false)).2
              (chunks.map (.body · false)) := rfl
        _ = waiting cluster authority headers
              ((body ++ chunk.getD []) ++ Request.bytes chunks) := by
            rw [hstep, ih]
        _ = _ := by simp [Request.bytes]

/-- The callbacks of a request with a body before the one that ends it. -/
def begun (headers : List (Str × Str)) (chunks : List (Option Bytes)) : List RequestEvent :=
  .headers headers false :: chunks.map (.body · false)

theorem events_chunks (chunks : List (Option Bytes)) (last : Option Bytes) :
    Request.events ⟨headers, .chunks chunks last⟩ = begun headers chunks ++ [.body last true] := rfl

theorem events_trailed (chunks : List (Option Bytes)) :
    Request.events ⟨headers, .trailed chunks⟩ = begun headers chunks ++ [.trailers] := rfl

theorem run_begun (hplain : isWebSocketUpgrade headers = false) (chunks : List (Option Bytes)) :
    run env { cluster, authority } (begun headers chunks) =
      waiting cluster authority headers (Request.bytes chunks) := by
  rw [← List.nil_append (Request.bytes chunks), ← run_chunks env, ← step_headers env hplain]
  rfl

/-- The callbacks before the one that ends a request lead to no call. -/
theorem calls_of_begun (hplain : isWebSocketUpgrade headers = false)
    {chunks : List (Option Bytes)} {before : List RequestEvent}
    (hbefore : before <+: begun headers chunks) :
    (run env { cluster, authority } before).calls = [] := by
  cases before with
  | nil => rfl
  | cons e es =>
      obtain ⟨rfl, hes⟩ := List.cons_prefix_cons.mp hbefore
      obtain ⟨some, -, rfl⟩ := List.prefix_map_iff.mp hes
      exact congrArg HttpBridgeFilter.calls (run_begun env hplain some)

/-- Every run of `dispatch_handle` is one call, whatever the host answers. -/
theorem dispatchHandle_calls (s : HttpBridgeFilter) :
    (dispatchHandle env s).calls = s.calls ++
      [.dispatchGrpcCall s.cluster "grpcgi.v1.HttpBridge".toList "Handle".toList
        (if s.authority.isEmpty then [] else [(":authority".toList, utf8Encode s.authority)])
        (encodeHttpRequest s.reqHeaders s.reqBody) 30 (env.dispatchGrpcCall s.calls)] := by
  simp only [dispatchHandle]
  split <;> rfl

/-- The last chunk is kept like the others, and what has been kept is dispatched. -/
theorem step_last (body : Bytes) (last : Option Bytes) :
    (step env (waiting cluster authority headers body) (.body last true)).2 =
      dispatchHandle env { waiting cluster authority headers (body ++ last.getD []) with
        bodyPending := false } := by
  cases last <;> simp [step, onHttpRequestBody, waiting]

end Requests

/-- A request is dispatched once, whole and at its end exactly when it has no
trailers; a request with trailers is never dispatched. -/
theorem dispatched_once_iff (env : Env) (cluster authority : Str) (request : Request)
    (hplain : isWebSocketUpgrade request.headers = false) :
    DispatchedOnce env cluster authority request ↔ ¬ request.HasTrailers := by
  obtain ⟨headers, body⟩ := request
  cases body with
  | none =>
      refine iff_of_true ⟨?_, ?_⟩ (by rintro ⟨chunks, ⟨⟩⟩)
      · intro before hbefore hne
        obtain heq | hnil := List.prefix_cons_iff.mp hbefore
        · rw [heq]
          rfl
        · obtain ⟨rest, rfl, hrest⟩ := hnil
          obtain rfl : rest = [] := List.prefix_nil.mp hrest
          exact absurd rfl hne
      · have hrun : run env { cluster, authority } (Request.events ⟨headers, .none⟩) =
            dispatchHandle env { cluster, authority, reqHeaders := headers } := by
          simp only [Request.events, run, List.foldl_cons, List.foldl_nil, step,
            onHttpRequestHeaders, hplain, Bool.false_eq_true, if_false, if_true]
        rw [hrun, dispatchHandle_calls]
        rfl
  | chunks chunks last =>
      refine iff_of_true ⟨?_, ?_⟩ (by rintro ⟨chunks, ⟨⟩⟩)
      · intro before hbefore hne
        rw [events_chunks] at hbefore hne
        obtain heq | hbegun := List.prefix_concat_iff.mp hbefore
        · exact absurd heq hne
        · exact calls_of_begun env hplain hbegun
      · rw [events_chunks, run_append, run_begun env hplain]
        change (step env _ _).2.calls = _
        have hbytes : Request.bytes chunks ++ last.getD [] = Request.bytes (chunks ++ [last]) := by
          rw [Request.bytes, Request.bytes, List.flatMap_append, List.flatMap_singleton]
        rw [step_last, dispatchHandle_calls, hbytes]
        rfl
  | trailed chunks =>
      refine iff_of_false ?_ (not_not.mpr ⟨chunks, rfl⟩)
      rintro ⟨-, hcalls⟩
      rw [events_trailed, run_append, run_begun env hplain] at hcalls
      exact absurd hcalls (List.cons_ne_nil _ _).symm

/-- A request with a body in two chunks, the first of them empty. -/
theorem dispatched_once_iff_post :
    isWebSocketUpgrade [(":method".toList, "POST".toList)] = false ∧
      DispatchedOnce ⟨fun _ => some 1⟩ "grpcgi".toList []
        ⟨[(":method".toList, "POST".toList)], .chunks [none] (some [0x61])⟩ :=
  ⟨by decide, (dispatched_once_iff ⟨fun _ => some 1⟩ _ _
    ⟨[(":method".toList, "POST".toList)], .chunks [none] (some [0x61])⟩ (by decide)).mpr
      (by rintro ⟨chunks, ⟨⟩⟩)⟩

/-- A request with a chunk and trailers: the host hears of it no more. -/
theorem trailers_never_dispatched :
    let request : Request :=
      ⟨[(":method".toList, "POST".toList)], .trailed [some [0x61]]⟩
    isWebSocketUpgrade request.headers = false ∧
      (run ⟨fun _ => some 1⟩ { cluster := "grpcgi".toList, authority := [] }
        request.events).calls = [] ∧
      ¬ DispatchedOnce ⟨fun _ => some 1⟩ "grpcgi".toList [] request := by
  intro request
  have hnone : (run ⟨fun _ => some 1⟩ { cluster := "grpcgi".toList, authority := [] }
      request.events).calls = [] := by decide
  refine ⟨by decide, hnone, ?_⟩
  rintro ⟨-, hcalls⟩
  rw [hnone] at hcalls
  exact absurd hcalls (List.cons_ne_nil _ _).symm

end Grpcgi.Wasm.HttpBridge
