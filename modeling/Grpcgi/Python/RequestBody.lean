import Mathlib.Data.List.Induction
import Grpcgi.Pipeline.Reader
import Grpcgi.Python.Process

/-!
# The request body of a streaming call

What the app finds in `receive_queue` when the client's request is over. The
schema has four ways to end a request. The pump knows two of them: a last body
chunk that says so, and the end of the gRPC stream. A client that ends its request
in its first message or with trailers, and keeps the stream open, leaves the app
without an end of the body.
-/

namespace Grpcgi.Python.Http

open Pipeline (Fed Fifo Reader through)

/-! ## The request of a client -/

/-- A message after `request_headers` that ends the request. -/
def ends : Proto.ProcessingRequest → Bool
  | .requestBody chunk => chunk.endOfStream
  | .requestTrailers _ => true
  | _ => false

def bodyData : Proto.ProcessingRequest → Option Bytes
  | .requestBody chunk => some chunk.data
  | _ => none

/-- The chunks of the request. -/
def requestChunks (headers : Proto.RequestHeaders) (messages : List Proto.ProcessingRequest) :
    List Bytes :=
  if headers.endOfStream then [] else (through ends messages).filterMap bodyData

/-- How many turns the pump needs to consume the end of the request: the message
that ends it, or the half-close. -/
def endAt (headers : Proto.RequestHeaders) (messages : List Proto.ProcessingRequest) : Nat :=
  if headers.endOfStream then 0
  else if messages.any ends then (through ends messages).length
  else messages.length + 1

/-- The `http.request` events carry the chunks in order, and the last and no other
has `more_body` false. -/
structure Delivered (chunks : List Bytes) (events : List ReceiveEvent) : Prop where
  bodies : events.flatMap (fun event => event.body) = chunks.flatten
  last : ∃ before event, events = before ++ [event] ∧ event.moreBody = false ∧
    ∀ e ∈ before, e.moreBody = true

/-- The request ends with a body chunk that says so or with the half-close. -/
def EndsWithBody (headers : Proto.RequestHeaders) (messages : List Proto.ProcessingRequest) :
    Prop :=
  headers.endOfStream = false ∧
    ∀ trailers, messages.find? ends ≠ some (.requestTrailers trailers)

/-! ## The pump -/

/-- The body of `_pump_body`. -/
def pumpReader : Reader Proto.ProcessingRequest ReceiveEvent where
  body message :=
    match message with
    | .requestBody chunk =>
      ([{ body := chunk.data, moreBody := !chunk.endOfStream }], !chunk.endOfStream)
    | _ => ([], true)
  eof := [{ body := [], moreBody := false }]

namespace Process

variable {σ : Type} {app : AsgiApp σ} {s : Process σ}

/-- One turn of the pump is one of the reader. -/
theorem pumpBody_eq (s : Process σ) :
    s.pumpBody = { s with
      pump := (pumpReader.turn s.pump).2
      receiveQueue := s.receiveQueue.putAll (pumpReader.turn s.pump).1 } := by
  obtain ⟨pump, a, queue, responses⟩ := s
  cases pump with
  | none => rfl
  | some messages =>
      cases messages with
      | nil => rfl
      | cons message messages =>
          cases message with
          | requestBody chunk =>
              cases hend : chunk.endOfStream <;>
                simp [pumpBody, Reader.turn, pumpReader, hend, Fifo.putAll]
          | requestHeaders => rfl
          | requestTrailers => rfl
          | unset => rfl

/-- The app takes from the receive queue and leaves the pump alone. -/
theorem runApp_keeps (app : AsgiApp σ) (s : Process σ) :
    (s.runApp app).pump = s.pump ∧
      (s.runApp app).receiveQueue.history = s.receiveQueue.history := by
  simp only [Process.runApp]
  split
  · exact ⟨rfl, rfl⟩
  · split
    · exact ⟨rfl, rfl⟩
    · split
      · exact ⟨rfl, rfl⟩
      · rename_i hget
        exact ⟨rfl, (Fifo.get?_some hget).1⟩
    · exact ⟨rfl, rfl⟩
    · exact ⟨rfl, rfl⟩

/-- The queue and the pump, as long as nobody cancels it. -/
def PumpFed (messages : List Proto.ProcessingRequest) (turns : Nat) (s : Process σ) : Prop :=
  Fed pumpReader messages [] turns True s.pump s.receiveQueue.history

theorem PumpFed.step {messages : List Proto.ProcessingRequest} {turns : Nat}
    (h : PumpFed messages turns s) {task : Task} (hcancel : task ≠ .cancelPump) :
    PumpFed messages (turns + [task].count .pump) (s.step app task) := by
  cases task with
  | pump =>
      have hturn := Fed.turn h
      rw [← Fifo.history_putAll] at hturn
      simp only [PumpFed, Process.step, pumpBody_eq]
      exact hturn
  | app =>
      obtain ⟨hpump, hhistory⟩ := runApp_keeps app s
      simp only [PumpFed, Process.step, hpump, hhistory]
      exact h
  | consumer => exact h
  | cancelPump => exact absurd rfl hcancel
  | cancelApp =>
      simp only [Process.step]
      split <;> exact h

/-- A pump that nobody cancels has put what the reader puts in its turns. -/
theorem receive_history {u : Unicode} {headers : Proto.RequestHeaders}
    {messages : List Proto.ProcessingRequest}
    (hprocess : process u app (.requestHeaders headers :: messages) = .running s)
    {schedule : List Task} (hcancel : .cancelPump ∉ schedule) :
    (s.run app schedule).receiveQueue.history =
      pumpReader.produced (schedule.count .pump) (some messages) := by
  have hfed : PumpFed messages (schedule.count .pump) (s.run app schedule) := by
    induction schedule using List.reverseRecOn with
    | nil =>
        obtain rfl := Opening.running.inj hprocess
        exact Fed.start
    | append_singleton schedule task ih =>
        have hrun : s.run app (schedule ++ [task]) = (s.run app schedule).step app task := by
          simp only [run, List.foldl_append, List.foldl_cons, List.foldl_nil]
        rw [hrun, List.count_append]
        apply (ih fun hmem => hcancel (List.mem_append_left _ hmem)).step
        rintro rfl
        exact hcancel (List.mem_append_right _ (List.mem_singleton_self _))
  exact (hfed.history_eq trivial).1

end Process

section Messages

variable {message : Proto.ProcessingRequest} {before : List Proto.ProcessingRequest}

/-- The pump goes on after every message that does not end the request, and
after trailers. -/
theorem pumpReader_go : (pumpReader.body message).2 = true ↔
    ∀ chunk, message = .requestBody chunk → chunk.endOfStream = false := by
  cases message <;> simp [pumpReader]

theorem pumpReader_goes (h : ∀ m ∈ before, ends m = false) :
    ∀ m ∈ before, (pumpReader.body m).2 = true := by
  intro m hm
  apply pumpReader_go.mpr
  rintro chunk rfl
  exact h _ hm

theorem moreBody_of_mem (h : ∀ m ∈ before, ends m = false) :
    ∀ e ∈ before.flatMap (fun m => (pumpReader.body m).1), e.moreBody = true := by
  intro e he
  obtain ⟨m, hm, he⟩ := List.mem_flatMap.mp he
  have hopen := h m hm
  cases m with
  | requestBody chunk =>
      cases List.mem_singleton.mp he
      rw [ends] at hopen
      simp [hopen]
  | requestHeaders => cases he
  | requestTrailers => cases he
  | unset => cases he

theorem bodies_flatMap (messages : List Proto.ProcessingRequest) :
    (messages.flatMap fun m => (pumpReader.body m).1).flatMap (fun event => event.body) =
      (messages.filterMap bodyData).flatten := by
  induction messages with
  | nil => rfl
  | cons m messages ih =>
      rw [List.flatMap_cons, List.flatMap_append, ih]
      cases m <;> simp [pumpReader, bodyData, List.filterMap_cons]

end Messages

theorem find_ends {messages : List Proto.ProcessingRequest} {message : Proto.ProcessingRequest}
    (hfind : messages.find? ends = some message) :
    ∃ before after, messages = before ++ message :: after ∧ (∀ m ∈ before, ends m = false) ∧
      ends message = true ∧ through ends messages = before ++ [message] := by
  obtain ⟨hends, before, after, rfl, hbefore⟩ := List.find?_eq_some_iff_append.mp hfind
  have hopen : ∀ m ∈ before, ends m = false := by
    intro m hm
    simpa using hbefore m hm
  exact ⟨before, after, rfl, hopen, hends, Pipeline.through_append hopen hends after⟩

/-- Events for the chunks, and one that says that there are no more. -/
theorem delivered_append {before : List Proto.ProcessingRequest}
    (hopen : ∀ m ∈ before, ends m = false) (body : Bytes) :
    Delivered (before.filterMap bodyData ++ [body])
      ((before.flatMap fun m => (pumpReader.body m).1) ++ [{ body, moreBody := false }]) := by
  constructor
  · rw [List.flatMap_append, bodies_flatMap, List.flatten_append]
    simp
  · exact ⟨_, _, rfl, rfl, moreBody_of_mem hopen⟩

theorem endAt_message {headers : Proto.RequestHeaders}
    {before after : List Proto.ProcessingRequest} {message : Proto.ProcessingRequest}
    (hheaders : headers.endOfStream = false) (hends : ends message = true)
    (hthrough : through ends (before ++ message :: after) = before ++ [message]) :
    endAt headers (before ++ message :: after) = before.length + 1 := by
  have hany : (before ++ message :: after).any ends = true :=
    List.any_eq_true.mpr ⟨message, by simp, hends⟩
  simp only [endAt, hheaders, Bool.false_eq_true, if_false, hany, if_true, hthrough,
    List.length_append, List.length_singleton]

/-! ## What the reader leaves at the end of the request -/

section End

variable {headers : Proto.RequestHeaders} {messages : List Proto.ProcessingRequest} {n : Nat}

theorem delivered_eof (hheaders : headers.endOfStream = false)
    (hfind : messages.find? ends = none) (hn : endAt headers messages ≤ n) :
    Delivered (requestChunks headers messages) (pumpReader.produced n (some messages)) := by
  have hopen : ∀ m ∈ messages, ends m = false := by
    intro m hm
    simpa using List.find?_eq_none.mp hfind m hm
  have hany : messages.any ends = false := by simpa using hopen
  have hend : endAt headers messages = messages.length + 1 := by
    simp only [endAt, hheaders, hany, Bool.false_eq_true, if_false]
  have hchunks : requestChunks headers messages = messages.filterMap bodyData := by
    simp only [requestChunks, hheaders, Bool.false_eq_true, if_false,
      Pipeline.through_of_unmarked hopen]
  rw [hend] at hn
  rw [Reader.produced_end (pumpReader_goes hopen) hn, hchunks]
  obtain ⟨bodies, last⟩ := delivered_append hopen []
  rw [List.flatten_append] at bodies
  exact ⟨bodies.trans (List.append_nil _), last⟩

theorem delivered_chunk (hheaders : headers.endOfStream = false) {chunk : Proto.BodyChunk}
    (hfind : messages.find? ends = some (.requestBody chunk)) (hn : endAt headers messages ≤ n) :
    Delivered (requestChunks headers messages) (pumpReader.produced n (some messages)) := by
  obtain ⟨before, after, rfl, hopen, hends, hthrough⟩ := find_ends hfind
  have hchunks : requestChunks headers (before ++ .requestBody chunk :: after) =
      before.filterMap bodyData ++ [chunk.data] := by
    simp only [requestChunks, hheaders, Bool.false_eq_true, if_false, hthrough,
      List.filterMap_append]
    rfl
  have hstop : pumpReader.body (.requestBody chunk) =
      ([{ body := chunk.data, moreBody := false }], false) := by
    rw [ends] at hends
    simp [pumpReader, hends]
  rw [endAt_message hheaders hends hthrough] at hn
  rw [Reader.produced_stop (pumpReader_goes hopen) (by rw [hstop]) hn, hstop, hchunks]
  exact delivered_append hopen chunk.data

/-- A request that ends with trailers: no event says that there is no more. -/
theorem not_delivered_trailers (hheaders : headers.endOfStream = false)
    {trailers : Proto.Trailers} (hfind : messages.find? ends = some (.requestTrailers trailers))
    (chunks : List Bytes) :
    ¬ Delivered chunks (pumpReader.produced (endAt headers messages) (some messages)) := by
  obtain ⟨before, after, rfl, hopen, hends, hthrough⟩ := find_ends hfind
  have hnone : pumpReader.produced 1 (some (.requestTrailers trailers :: after)) = [] := rfl
  rw [endAt_message hheaders hends hthrough, Reader.produced_append (pumpReader_goes hopen), hnone,
    List.append_nil]
  intro hdelivered
  obtain ⟨first, event, hsplit, hlast, -⟩ := hdelivered.last
  have hmem : event ∈ before.flatMap fun m => (pumpReader.body m).1 := by
    rw [hsplit]
    exact List.mem_append_right _ (List.mem_singleton_self _)
  have hmore := moreBody_of_mem hopen event hmem
  rw [hlast] at hmore
  cases hmore

theorem not_delivered_nil (chunks : List Bytes) : ¬ Delivered chunks [] := by
  intro hdelivered
  obtain ⟨before, event, hsplit, -⟩ := hdelivered.last
  exact absurd hsplit (by simp)

end End

/-- Once the end of the request is consumed, the app's events are complete
exactly when the request ends with its body. -/
theorem delivered_iff {σ : Type} (u : Unicode) (app : AsgiApp σ)
    (headers : Proto.RequestHeaders) (messages : List Proto.ProcessingRequest) {s : Process σ}
    (hprocess : process u app (.requestHeaders headers :: messages) = .running s) :
    (∀ schedule, .cancelPump ∉ schedule → endAt headers messages ≤ schedule.count .pump →
      Delivered (requestChunks headers messages) (s.run app schedule).receiveQueue.history) ↔
      EndsWithBody headers messages := by
  constructor
  · intro hdelivered
    -- the pump has read the end of the request, and the client keeps the stream open
    have hcancel : Task.cancelPump ∉ List.replicate (endAt headers messages) Task.pump := by
      simp [List.mem_replicate]
    have hcount : (List.replicate (endAt headers messages) Task.pump).count .pump =
        endAt headers messages := List.count_replicate_self
    have hend := hdelivered _ hcancel (Nat.le_of_eq hcount.symm)
    rw [Process.receive_history hprocess hcancel, hcount] at hend
    cases hheaders : headers.endOfStream with
    | true =>
        have hzero : endAt headers messages = 0 := if_pos hheaders
        rw [hzero] at hend
        exact absurd hend (not_delivered_nil _)
    | false =>
        refine ⟨hheaders, ?_⟩
        intro trailers hfind
        exact not_delivered_trailers hheaders hfind _ hend
  · rintro ⟨hheaders, hbody⟩ schedule hcancel hcount
    rw [Process.receive_history hprocess hcancel]
    cases hfind : messages.find? ends with
    | none => exact delivered_eof hheaders hfind hcount
    | some message =>
        cases message with
        | requestBody chunk => exact delivered_chunk hheaders hfind hcount
        | requestTrailers trailers => exact absurd hfind (hbody trailers)
        | requestHeaders =>
            obtain ⟨-, -, -, -, hends, -⟩ := find_ends hfind
            cases hends
        | unset =>
            obtain ⟨-, -, -, -, hends, -⟩ := find_ends hfind
            cases hends

def returning : AsgiApp Unit where
  start _ := ()
  action _ := .returned

/-- Two chunks, the second of which ends the request. -/
theorem delivered_iff_chunks :
    let messages : List Proto.ProcessingRequest :=
      [.requestBody ⟨[0x61], false⟩, .requestBody ⟨[0x62], true⟩]
    Delivered (requestChunks { headers := [] } messages)
      (({ pump := some messages, app := some () } : Process Unit).run returning
        [.pump, .app, .pump]).receiveQueue.history :=
  (delivered_iff .ascii returning { headers := [] }
    [.requestBody ⟨[0x61], false⟩, .requestBody ⟨[0x62], true⟩] rfl).mpr
    ⟨rfl, by intro trailers h; cases h⟩ _ (by decide) (by decide)

/-- A request that ends in its first message, and one that ends with trailers, on
streams that stay open: the app gets nothing, or a chunk and no end. -/
theorem end_not_delivered :
    let bodyless : Process Unit := { pump := some [], app := some () }
    let trailed : Process Unit :=
      { pump := some [.requestBody ⟨[0x61], false⟩, .requestTrailers ⟨[]⟩], app := some () }
    process .ascii returning [.requestHeaders { headers := [], endOfStream := true }] =
        .running bodyless ∧
      endAt { headers := [], endOfStream := true } [] = 0 ∧
      ¬ Delivered [] (bodyless.run returning []).receiveQueue.history ∧
      endAt { headers := [] } [.requestBody ⟨[0x61], false⟩, .requestTrailers ⟨[]⟩] = 2 ∧
      (trailed.run returning [.pump, .pump]).receiveQueue.history = [⟨[0x61], true⟩] ∧
      ¬ Delivered [[0x61]] (trailed.run returning [.pump, .pump]).receiveQueue.history := by
  intro bodyless trailed
  have hempty : (bodyless.run returning []).receiveQueue.history = [] := rfl
  have hchunk : (trailed.run returning [.pump, .pump]).receiveQueue.history =
      [⟨[0x61], true⟩] := rfl
  refine ⟨rfl, rfl, ?_, rfl, hchunk, ?_⟩
  · rw [hempty]
    exact not_delivered_nil []
  · intro h
    obtain ⟨before, event, hsplit, hlast, -⟩ := h.last
    rw [hchunk] at hsplit
    have hmem : event ∈ [ReceiveEvent.mk [0x61] true] := by
      rw [hsplit]
      exact List.mem_append_right _ (List.mem_singleton_self _)
    cases List.mem_singleton.mp hmem
    cases hlast

end Grpcgi.Python.Http
