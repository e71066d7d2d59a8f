import Grpcgi.Python.Handle
import Grpcgi.Python.Response

/-!
# The unary and the streaming call agree

The same app run by `Handle` and by `Process`. When it sends one whole response
and returns, the client of either call gets the same status, headers and body. When
it raises after the response is complete, `Process` still succeeds and `Handle`
aborts.
-/

namespace Grpcgi.Python.Http

open Pipeline (Consumer through through_append)
open SendEvent (translation)

/-! ## What `Handle` collects -/

/-- The status of the last `http.response.start`. -/
def sentStatus (events : List SendEvent) : Int :=
  events.foldl (fun status event =>
    match event with
    | .responseStart status _ => status.getD 200
    | _ => status) 200

def SendEvent.headers : SendEvent → List (Text × Text)
  | .responseStart _ headers => headers.getD []
  | _ => []

def SendEvent.body : SendEvent → Bytes
  | .responseBody body _ => body.getD []
  | _ => []

namespace Handle

variable {σ : Type} {s : Handle σ}

/-- The variables of the call are those of the events sent. -/
structure Collected (s : Handle σ) : Prop where
  status : s.respStatus = sentStatus s.sent
  headers : s.respHeaders = s.sent.flatMap SendEvent.headers
  body : s.respBody = s.sent.flatMap SendEvent.body

theorem Collected.send (h : s.Collected) {event : SendEvent} {t : Handle σ}
    (hsend : s.send event = some t) : t.Collected := by
  obtain ⟨hstatus, hheaders, hbody⟩ := h
  cases event with
  | responseStart status headers =>
      cases hsend
      constructor
      · simp [sentStatus]
      · simp [SendEvent.headers, hheaders]
      · simp [SendEvent.body, hbody]
  | responseBody body moreBody =>
      cases hsend
      constructor
      · simpa [sentStatus] using hstatus
      · simp [SendEvent.headers, hheaders]
      · simp [SendEvent.body, hbody]
  | disconnect =>
      cases hsend
      constructor
      · simpa [sentStatus] using hstatus
      · simp [SendEvent.headers, hheaders]
      · simp [SendEvent.body, hbody]
  | other type =>
      cases type with
      | none => cases hsend
      | some type =>
          cases hsend
          constructor
          · simpa [sentStatus] using hstatus
          · simp [SendEvent.headers, hheaders]
          · simp [SendEvent.body, hbody]

theorem Collected.step (h : s.Collected) (app : HttpApp σ) (request : Proto.HttpRequest) :
    (s.step app request).Collected := by
  simp only [Handle.step]
  split
  · exact h
  · exact h
  · split
    · split
      · rename_i t hsend
        obtain ⟨hstatus, hheaders, hbody⟩ := h.send hsend
        exact ⟨hstatus, hheaders, hbody⟩
      · exact ⟨h.status, h.headers, h.body⟩
    · split
      · split <;> exact ⟨h.status, h.headers, h.body⟩
      · exact ⟨h.status, h.headers, h.body⟩
    · exact ⟨h.status, h.headers, h.body⟩
    · exact ⟨h.status, h.headers, h.body⟩

/-- Every run. -/
theorem collected_run (u : Unicode) (app : HttpApp σ) (request : Proto.HttpRequest)
    (turns : Nat) : ((handle u app request).run app request turns).Collected := by
  induction turns with
  | zero => exact ⟨rfl, rfl, rfl⟩
  | succ turns ih =>
      rw [run, Function.iterate_succ_apply']
      exact ih.step app request

end Handle

/-! ## One whole response -/

/-- What an app sends for a response: the start, then body events of which the
last and no other has `more_body` false. -/
structure ResponseEvents where
  status : Option Int
  headers : Option (List (Text × Text))
  /-- the `body` entries of the events before the last -/
  chunks : List (Option Bytes)
  lastBody : Option Bytes
  lastMore : Option Bool
  closing : lastMore.getD false = false

/-- The same with header names and values that are UTF-8. -/
structure WholeResponse extends ResponseEvents where
  utf8 : ∀ h ∈ headers.getD [], h.1.decode.isSome ∧ h.2.decode.isSome

namespace ResponseEvents

variable (r : ResponseEvents)

def events : List SendEvent :=
  .responseStart r.status r.headers :: (r.chunks.map (.responseBody · (some true)) ++
    [.responseBody r.lastBody r.lastMore])

/-- The status is one that the message has room for. -/
def FitsStatus : Prop := 0 ≤ r.status.getD 200 ∧ r.status.getD 200 < 2 ^ 32

def protoHeaders : List Proto.Header :=
  (r.headers.getD []).map fun h => ⟨h.1.text, .value h.2.text⟩

/-- The chunks with something in them, and the last. -/
def bodyChunks : List Proto.BodyChunk :=
  r.chunks.filterMap (fun body =>
    if body.getD [] = [] then none else some { data := body.getD [], endOfStream := false }) ++
    [{ data := r.lastBody.getD [], endOfStream := true }]

def body : Bytes := r.chunks.flatMap (fun body => body.getD []) ++ r.lastBody.getD []

instance : Decidable r.FitsStatus := inferInstanceAs (Decidable (_ ∧ _))

theorem sentStatus_events : sentStatus r.events = r.status.getD 200 := by
  have hbodies (status : Int) (chunks : List (Option Bytes)) :
      (chunks.map fun body => SendEvent.responseBody body (some true)).foldl (fun status event =>
        match event with
        | .responseStart status _ => status.getD 200
        | _ => status) status = status := by
    induction chunks with
    | nil => rfl
    | cons chunk chunks ih => exact ih
  simp only [sentStatus, events, List.foldl_cons, List.foldl_append, List.foldl_nil, hbodies]

theorem headers_events : r.events.flatMap SendEvent.headers = r.headers.getD [] := by
  simp [events, SendEvent.headers, List.flatMap_append, List.flatMap_map]

theorem body_events : r.events.flatMap SendEvent.body = r.body := by
  simp [events, SendEvent.body, body, List.flatMap_append, List.flatMap_map]

/-- The data of the chunks make up the body: only empty ones are left out. -/
theorem data_bodyChunks : r.bodyChunks.flatMap (fun chunk => chunk.data) = r.body := by
  have hchunks : (r.chunks.filterMap (fun body =>
      if body.getD [] = [] then none
      else some (Proto.BodyChunk.mk (body.getD []) false))).flatMap (fun chunk => chunk.data) =
      r.chunks.flatMap (fun body => body.getD []) := by
    induction r.chunks with
    | nil => rfl
    | cons chunk chunks ih =>
        by_cases hempty : chunk.getD [] = []
        · rw [List.filterMap_cons, if_pos hempty, List.flatMap_cons, hempty, List.nil_append, ih]
        · rw [List.filterMap_cons, if_neg hempty, List.flatMap_cons, List.flatMap_cons, ih]
  rw [bodyChunks, List.flatMap_append, hchunks, body]
  simp

/-- Only the last event ends the response. -/
theorem through_events : through SendEvent.last r.events = r.events := by
  have hlast : (SendEvent.responseBody r.lastBody r.lastMore).last = true := by
    simp [SendEvent.last, r.closing]
  have hopen : ∀ e ∈ SendEvent.responseStart r.status r.headers ::
      r.chunks.map (SendEvent.responseBody · (some true)), e.last = false := by
    intro e he
    obtain rfl | he := List.mem_cons.mp he
    · rfl
    · obtain ⟨body, -, rfl⟩ := List.mem_map.mp he
      rfl
  have hthrough := through_append hopen hlast []
  exact hthrough

theorem events_fitsStatus (h : r.FitsStatus) : ∀ e ∈ r.events, e.FitsStatus := by
  intro e he
  obtain rfl | he := List.mem_cons.mp he
  · exact h
  · obtain he | he := List.mem_append.mp he
    · obtain ⟨body, -, rfl⟩ := List.mem_map.mp he
      trivial
    · obtain rfl := List.mem_singleton.mp he
      trivial

/-- What `Process` yields for it. -/
theorem translation_events :
    r.events.filterMap translation =
      .responseHeaders
        { status := UInt32.ofNat (r.status.getD 200).toNat, headers := r.protoHeaders } ::
      r.bodyChunks.map .responseBody := by
  have hlast : translation (.responseBody r.lastBody r.lastMore) =
      some (.responseBody { data := r.lastBody.getD [], endOfStream := true }) := by
    simp [translation, r.closing]
  have hchunks : (r.chunks.map (SendEvent.responseBody · (some true))).filterMap translation =
      (r.chunks.filterMap fun body =>
        if body.getD [] = [] then none
        else some (Proto.BodyChunk.mk (body.getD []) false)).map .responseBody := by
    rw [List.filterMap_map, List.map_filterMap]
    apply List.filterMap_congr
    intro body _
    by_cases hempty : body.getD [] = []
    · simp [translation, hempty]
    · simp [translation, hempty]
  have hbodies : (r.chunks.map (SendEvent.responseBody · (some true)) ++
      [SendEvent.responseBody r.lastBody r.lastMore]).filterMap translation =
        r.bodyChunks.map .responseBody := by
    rw [List.filterMap_append, hchunks, Process.filterMap_singleton_toList, hlast, bodyChunks,
      List.map_append]
    rfl
  rw [events, List.filterMap_cons, hbodies]
  rfl

end ResponseEvents

theorem WholeResponse.events_utf8 (r : WholeResponse) : ∀ e ∈ r.events, e.Utf8 := by
  intro e he
  obtain rfl | he := List.mem_cons.mp he
  · exact r.utf8
  · obtain he | he := List.mem_append.mp he
    · obtain ⟨body, -, rfl⟩ := List.mem_map.mp he
      trivial
    · obtain rfl := List.mem_singleton.mp he
      trivial

/-! ## Agreement -/

/-- Both calls succeed, with the same status, the same headers in order, and the
body of the one the concatenation of the chunks of the other. -/
def Agree {σ τ : Type} (h : Handle σ) (s : Process τ) : Prop :=
  ∃ (response : Proto.HttpResponse) (chunks : List Proto.BodyChunk),
    h.outcome = some (.response response) ∧ s.ended = some .stopped ∧
    s.yielded = .responseHeaders { status := response.status, headers := response.headers } ::
      chunks.map .responseBody ∧
    response.body = chunks.flatMap (fun chunk => chunk.data)

section Runs

variable {σ : Type} {r : WholeResponse}

/-- What `Handle` makes of a whole response. -/
theorem outcome_fits {h : Handle σ} (hcollected : h.Collected) (hsent : h.sent = r.events)
    (hreturned : h.call = .returned) (hfits : r.FitsStatus) :
    h.outcome = some (.response
      { status := UInt32.ofNat (r.status.getD 200).toNat, headers := r.protoHeaders,
        body := r.body }) := by
  obtain ⟨hstatus, hheaders, hbody⟩ := hcollected
  rw [hsent, r.sentStatus_events] at hstatus
  rw [hsent, r.headers_events] at hheaders
  rw [hsent, r.body_events] at hbody
  have hnumber : toUInt32 (r.status.getD 200) = some (UInt32.ofNat (r.status.getD 200).toNat) :=
    if_pos hfits
  simp only [Handle.outcome, hreturned, hstatus, hheaders, hbody, hnumber,
    decodeHeaders_utf8 _ r.utf8, ResponseEvents.protoHeaders]

/-- `Handle` answers only if the app has returned and the status fits. -/
theorem returned_of_outcome {r : ResponseEvents} {h : Handle σ} (hcollected : h.Collected)
    (hsent : h.sent = r.events) {response : Proto.HttpResponse}
    (houtcome : h.outcome = some (.response response)) :
    h.call = .returned ∧ r.FitsStatus := by
  obtain ⟨hreturned, hstatus, -⟩ := Handle.of_outcome houtcome
  refine ⟨hreturned, ?_⟩
  rw [hcollected.status, hsent, r.sentStatus_events] at hstatus
  by_contra hfits
  have hnumber : toUInt32 (r.status.getD 200) = none := if_neg hfits
  rw [hnumber] at hstatus
  cases hstatus

/-- The loop puts nothing. -/
theorem events_run_consumer (app : AsgiApp σ) (n : Nat) (s : Process σ) :
    (s.run app (List.replicate n .consumer)).events = s.events := by
  induction n generalizing s with
  | zero => rfl
  | succ n ih =>
      have hstep : (s.step app .consumer).events = s.events := by
        simp only [Process.step, Process.events, Consumer.step_history]
      exact (ih (s.step app .consumer)).trans hstep

variable {u : Unicode} {app : AsgiApp σ} {messages : List Proto.ProcessingRequest}
  {s : Process σ} {schedule : List Task} {n : Nat}

/-- After a whole response the generator ends in its own turns, whatever the app
does. -/
theorem process_ends {r : ResponseEvents} (hprocess : process u app messages = .running s)
    (hevents : (s.run app schedule).events = r.events)
    (hn : (s.run app schedule).responses.queue.history.length ≤ n) :
    (s.run app (schedule ++ List.replicate n .consumer)).ended.isSome ∧
      (s.run app (schedule ++ List.replicate n .consumer)).events = r.events := by
  have hsound := Process.sound_of_process hprocess schedule
  have happend : s.run app (schedule ++ List.replicate n .consumer) =
      (s.run app schedule).run app (List.replicate n .consumer) := List.foldl_append
  rw [happend, events_run_consumer]
  refine ⟨?_, hevents⟩
  generalize s.run app schedule = t at hsound hevents hn ⊢
  rw [Process.run_consumer]
  have hlast : SendItem.event (.responseBody r.lastBody r.lastMore) ∈
      t.responses.queue.history := by
    rw [hsound.history_eq, hevents]
    apply List.mem_append_left
    apply List.mem_map_of_mem
    exact List.mem_cons_of_mem _ (List.mem_append_right _ (List.mem_singleton_self _))
  apply hsound.follows.ends hlast
  · simp [consume, r.closing]
  · exact Nat.le_add_left_of_le hn

/-- What `Process` yields for a whole response. -/
theorem process_fits (hprocess : process u app messages = .running s)
    (hevents : (s.run app schedule).events = r.events)
    (hended : (s.run app schedule).ended.isSome) :
    (r.FitsStatus → (s.run app schedule).ended = some .stopped) ∧
      ((s.run app schedule).ended = some .stopped → r.FitsStatus ∧
        (s.run app schedule).yielded =
          .responseHeaders
            { status := UInt32.ofNat (r.status.getD 200).toNat, headers := r.protoHeaders } ::
          r.bodyChunks.map .responseBody) := by
  have hposition := (Process.sound_of_process hprocess schedule).position
  generalize s.run app schedule = t at hposition hevents hended ⊢
  constructor
  · intro hfits
    cases hposition with
    | running _ _ _ hnone _ =>
        rw [hnone] at hended
        cases hended
    | exited _ _ hstop _ => exact hstop
    | stopped _ _ _ _ _ _ hstop _ => exact hstop
    | raised es e hsent _ hraise _ _ =>
        have hmem := hsent.subset (List.mem_append_right es (List.mem_singleton_self e))
        rw [hevents] at hmem
        exact absurd ⟨r.events_utf8 e hmem, r.events_fitsStatus hfits e hmem⟩ hraise
  · intro hstop
    obtain ⟨hyielded, hstatus, -⟩ := hposition.at_end hstop
    rw [hevents, r.through_events] at hyielded hstatus
    rw [r.translation_events] at hyielded
    exact ⟨hstatus _ List.mem_cons_self, hyielded⟩

end Runs

/-- For every request and every app that sends one whole response: the unary and
the streaming call agree exactly when the app returns after it and its status is a
`uint32`. -/
theorem agree_iff {σ : Type} (u : Unicode) (app : HttpApp σ) (request : Proto.HttpRequest)
    (endOfStream : Bool) (messages : List Proto.ProcessingRequest) {s : Process σ}
    (hprocess : process u app.onProcess
      (.requestHeaders { headers := request.headers, endOfStream } :: messages) = .running s)
    (r : WholeResponse) (turns : Nat) (schedule : List Task) (n : Nat)
    (hsent : ((handle u app request).run app request turns).sent = r.events)
    (hevents : (s.run app.onProcess schedule).events = r.events)
    (hn : (s.run app.onProcess schedule).responses.queue.history.length ≤ n) :
    Agree ((handle u app request).run app request turns)
        (s.run app.onProcess (schedule ++ List.replicate n .consumer)) ↔
      ((handle u app request).run app request turns).call = .returned ∧ r.FitsStatus := by
  have hcollected := Handle.collected_run u app request turns
  obtain ⟨hended, hall⟩ := process_ends hprocess hevents hn
  obtain ⟨hstop, hyielded⟩ := process_fits hprocess hall hended
  constructor
  · rintro ⟨response, chunks, houtcome, -⟩
    exact returned_of_outcome hcollected hsent houtcome
  · rintro ⟨hreturned, hfits⟩
    exact ⟨_, r.bodyChunks, outcome_fits hcollected hsent hreturned hfits, hstop hfits,
      (hyielded (hstop hfits)).2, r.data_bodyChunks.symm⟩

/-- An app that sends a list of events and then returns or raises. -/
def sending (events : List SendEvent) (raises : Bool) : HttpApp (List SendEvent) where
  start _ := events
  action
    | [] => if raises then .raised else .returned
    | event :: events => .send event events events

/-- A response in three events, the first chunk empty. -/
def threeChunks : WholeResponse where
  status := none
  headers := some [(.str "a".toList, .bytes [0x62])]
  chunks := [none, some [0x68]]
  lastBody := some [0x69]
  lastMore := none
  utf8 := by decide
  closing := rfl

theorem agree_iff_returned :
    let app := sending threeChunks.events false
    let request : Proto.HttpRequest := { headers := [], body := [] }
    Agree ((handle .ascii app request).run app request 5)
      (({ pump := some [], app := some threeChunks.events } : Process (List SendEvent)).run
        app.onProcess ([.app, .app, .app, .app] ++ List.replicate 4 .consumer)) :=
  (agree_iff .ascii (sending threeChunks.events false) { headers := [], body := [] } false [] rfl
    threeChunks 5 [.app, .app, .app, .app] 4 (by decide) (by decide) (by decide)).mpr
    ⟨by decide, by decide⟩

/-- An app that raises after the same response: the streaming call succeeds, with
all of it, and the unary call aborts. -/
theorem raised_after_response :
    let app := sending threeChunks.events true
    let h := (handle .ascii app { headers := [], body := [] }).run app
      { headers := [], body := [] } 5
    let s := ({ pump := some [], app := some threeChunks.events } : Process (List SendEvent)).run
      app.onProcess [.app, .app, .app, .app, .app, .consumer, .consumer, .consumer, .consumer]
    h.sent = threeChunks.events ∧ s.events = threeChunks.events ∧
      h.outcome = some (.aborted "ASGI app error".toList) ∧ s.ended = some .stopped ∧
      s.yielded.length = 3 ∧ ¬ Agree h s := by
  intro app h s
  have houtcome : h.outcome = some (.aborted "ASGI app error".toList) := by decide
  refine ⟨by decide, by decide, houtcome, by decide, by decide, ?_⟩
  rintro ⟨response, chunks, hresponse, -⟩
  rw [houtcome] at hresponse
  cases hresponse

end Grpcgi.Python.Http
