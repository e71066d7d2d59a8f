import Grpcgi.Python.Response

/-!
# Complete responses

The grammar of a complete response, as the protocol document gives it, and the
grammar of the app's events that make one. The bridge checks neither: a call of
`Process` that succeeds has yielded a complete response exactly when the app
happened to send a complete one, and nothing tells the proxy which it was.
-/

namespace Grpcgi.Python.Http

open Pipeline (through)
open Proto (BodyChunk ProcessingResponse ResponseHeaders)
open SendEvent (translation)

/-! ## The two grammars -/

/-- Body chunks, of which the last and only the last has `end_of_stream`. -/
inductive CompleteBody : List ProcessingResponse → Prop where
  | last (chunk : BodyChunk) (hend : chunk.endOfStream = true) :
      CompleteBody [.responseBody chunk]
  | more (chunk : BodyChunk) (rest : List ProcessingResponse) (hopen : chunk.endOfStream = false)
      (hrest : CompleteBody rest) : CompleteBody (.responseBody chunk :: rest)

/-- Interim responses, a final one, and its body. -/
inductive Complete : List ProcessingResponse → Prop where
  | interim (head : ResponseHeaders) (rest : List ProcessingResponse)
      (hstatus : 100 ≤ head.status.toNat ∧ head.status.toNat ≤ 199) (hrest : Complete rest) :
      Complete (.responseHeaders head :: rest)
  | final (head : ResponseHeaders) (rest : List ProcessingResponse)
      (hstatus : 200 ≤ head.status.toNat ∧ head.status.toNat ≤ 599) (hrest : CompleteBody rest) :
      Complete (.responseHeaders head :: rest)

/-- The app sends the body of a response to its end. -/
inductive CompleteBodyTrace : List SendEvent → Prop where
  | last (body : Option Bytes) (moreBody : Option Bool) (rest : List SendEvent)
      (hend : moreBody.getD false = false) :
      CompleteBodyTrace (.responseBody body moreBody :: rest)
  | more (body : Option Bytes) (moreBody : Option Bool) (rest : List SendEvent)
      (hopen : moreBody.getD false = true) (hrest : CompleteBodyTrace rest) :
      CompleteBodyTrace (.responseBody body moreBody :: rest)
  | other (type : Option Str) (rest : List SendEvent) (hrest : CompleteBodyTrace rest) :
      CompleteBodyTrace (.other type :: rest)

/-- The app sends a response to its end: starts with a status from 100 to 199,
one with a status from 200 to 599, and the body. Empty body events before the
final start and events of unknown type do not count. -/
inductive CompleteTrace : List SendEvent → Prop where
  | interim (status : Option Int) (headers : Option (List (Text × Text))) (rest : List SendEvent)
      (hstatus : 100 ≤ status.getD 200 ∧ status.getD 200 ≤ 199) (hrest : CompleteTrace rest) :
      CompleteTrace (.responseStart status headers :: rest)
  | final (status : Option Int) (headers : Option (List (Text × Text))) (rest : List SendEvent)
      (hstatus : 200 ≤ status.getD 200 ∧ status.getD 200 ≤ 599) (hrest : CompleteBodyTrace rest) :
      CompleteTrace (.responseStart status headers :: rest)
  | empty (body : Option Bytes) (moreBody : Option Bool) (rest : List SendEvent)
      (hempty : body.getD [] = []) (hopen : moreBody.getD false = true)
      (hrest : CompleteTrace rest) : CompleteTrace (.responseBody body moreBody :: rest)
  | other (type : Option Str) (rest : List SendEvent) (hrest : CompleteTrace rest) :
      CompleteTrace (.other type :: rest)

/-! ## The translation relates them -/

/-- The messages for the events up to the last one. -/
def messages (events : List SendEvent) : List ProcessingResponse :=
  (through SendEvent.last events).filterMap translation

section Messages

variable (events : List SendEvent)

theorem messages_start (status : Option Int) (headers : Option (List (Text × Text))) :
    ∃ head : ResponseHeaders, head.status = UInt32.ofNat (status.getD 200).toNat ∧
      messages (.responseStart status headers :: events) =
        .responseHeaders head :: messages events :=
  ⟨_, rfl, rfl⟩

theorem messages_other (type : Option Str) : messages (.other type :: events) = messages events :=
  rfl

theorem messages_last (body : Option Bytes) {moreBody : Option Bool}
    (hend : moreBody.getD false = false) :
    messages (.responseBody body moreBody :: events) =
      [.responseBody { data := body.getD [], endOfStream := true }] := by
  simp [messages, through, SendEvent.last, translation, hend]

theorem messages_more {body : Option Bytes} {moreBody : Option Bool}
    (hopen : moreBody.getD false = true) (hbody : body.getD [] ≠ []) :
    messages (.responseBody body moreBody :: events) =
      .responseBody { data := body.getD [], endOfStream := false } :: messages events := by
  simp [messages, through, SendEvent.last, translation, hopen, hbody]

theorem messages_empty {body : Option Bytes} {moreBody : Option Bool}
    (hopen : moreBody.getD false = true) (hbody : body.getD [] = []) :
    messages (.responseBody body moreBody :: events) = messages events := by
  simp [messages, through, SendEvent.last, translation, hopen, hbody]

end Messages

section Inversion

variable {head : ResponseHeaders} {chunk : BodyChunk} {rest : List ProcessingResponse}
variable {status : Option Int} {headers : Option (List (Text × Text))} {body : Option Bytes}
variable {moreBody : Option Bool} {type : Option Str} {es : List SendEvent}

theorem not_completeBody_nil : ¬CompleteBody [] := by rintro ⟨⟩

theorem not_completeBody_start : ¬CompleteBody (.responseHeaders head :: rest) := by rintro ⟨⟩

theorem completeBody_more (hopen : chunk.endOfStream = false) :
    CompleteBody (.responseBody chunk :: rest) ↔ CompleteBody rest := by
  constructor
  · rintro (⟨_, hend⟩ | ⟨_, _, _, hrest⟩)
    · rw [hopen] at hend
      exact absurd hend (by decide)
    · exact hrest
  · exact .more chunk rest hopen

theorem not_complete_nil : ¬Complete [] := by rintro ⟨⟩

theorem not_complete_body : ¬Complete (.responseBody chunk :: rest) := by rintro ⟨⟩

theorem complete_start :
    Complete (.responseHeaders head :: rest) ↔
      (100 ≤ head.status.toNat ∧ head.status.toNat ≤ 199) ∧ Complete rest ∨
        (200 ≤ head.status.toNat ∧ head.status.toNat ≤ 599) ∧ CompleteBody rest := by
  constructor
  · rintro (⟨_, _, hstatus, hrest⟩ | ⟨_, _, hstatus, hrest⟩)
    · exact .inl ⟨hstatus, hrest⟩
    · exact .inr ⟨hstatus, hrest⟩
  · rintro (⟨hstatus, hrest⟩ | ⟨hstatus, hrest⟩)
    · exact .interim head rest hstatus hrest
    · exact .final head rest hstatus hrest

theorem not_completeBodyTrace_nil : ¬CompleteBodyTrace [] := by rintro ⟨⟩

theorem not_completeBodyTrace_start :
    ¬CompleteBodyTrace (.responseStart status headers :: es) := by rintro ⟨⟩

theorem not_completeBodyTrace_disconnect : ¬CompleteBodyTrace (.disconnect :: es) := by rintro ⟨⟩

theorem completeBodyTrace_other : CompleteBodyTrace (.other type :: es) ↔ CompleteBodyTrace es := by
  constructor
  · rintro ⟨⟩
    assumption
  · exact .other type es

theorem completeBodyTrace_more (hopen : moreBody.getD false = true) :
    CompleteBodyTrace (.responseBody body moreBody :: es) ↔ CompleteBodyTrace es := by
  constructor
  · rintro (⟨_, _, _, hend⟩ | ⟨_, _, _, _, hrest⟩)
    · rw [hopen] at hend
      exact absurd hend (by decide)
    · exact hrest
  · exact .more body moreBody es hopen

theorem not_completeTrace_nil : ¬CompleteTrace [] := by rintro ⟨⟩

theorem not_completeTrace_disconnect : ¬CompleteTrace (.disconnect :: es) := by rintro ⟨⟩

theorem completeTrace_other : CompleteTrace (.other type :: es) ↔ CompleteTrace es := by
  constructor
  · rintro ⟨⟩
    assumption
  · exact .other type es

theorem completeTrace_body :
    CompleteTrace (.responseBody body moreBody :: es) ↔
      body.getD [] = [] ∧ moreBody.getD false = true ∧ CompleteTrace es := by
  constructor
  · rintro (_ | _ | ⟨_, _, _, hempty, hopen, hrest⟩ | _)
    exact ⟨hempty, hopen, hrest⟩
  · rintro ⟨hempty, hopen, hrest⟩
    exact .empty body moreBody es hempty hopen hrest

theorem completeTrace_start :
    CompleteTrace (.responseStart status headers :: es) ↔
      (100 ≤ status.getD 200 ∧ status.getD 200 ≤ 199) ∧ CompleteTrace es ∨
        (200 ≤ status.getD 200 ∧ status.getD 200 ≤ 599) ∧ CompleteBodyTrace es := by
  constructor
  · rintro (⟨_, _, _, hstatus, hrest⟩ | ⟨_, _, _, hstatus, hrest⟩ | _ | _)
    · exact .inl ⟨hstatus, hrest⟩
    · exact .inr ⟨hstatus, hrest⟩
  · rintro (⟨hstatus, hrest⟩ | ⟨hstatus, hrest⟩)
    · exact .interim status headers es hstatus hrest
    · exact .final status headers es hstatus hrest

end Inversion

/-- A body is complete exactly when the app sends it to its end. -/
theorem completeBody_messages (events : List SendEvent) :
    CompleteBody (messages events) ↔ CompleteBodyTrace events := by
  induction events with
  | nil => exact iff_of_false not_completeBody_nil not_completeBodyTrace_nil
  | cons e es ih =>
      cases e with
      | responseStart status headers =>
          obtain ⟨head, -, hmessages⟩ := messages_start es status headers
          rw [hmessages]
          exact iff_of_false not_completeBody_start not_completeBodyTrace_start
      | disconnect => exact iff_of_false not_completeBody_nil not_completeBodyTrace_disconnect
      | other type => rw [messages_other, completeBodyTrace_other, ih]
      | responseBody body moreBody =>
          cases hmore : moreBody.getD false with
          | false =>
              rw [messages_last es body hmore]
              exact iff_of_true (.last _ rfl) (.last body moreBody es hmore)
          | true =>
              rw [completeBodyTrace_more hmore, ← ih]
              by_cases hbody : body.getD [] = []
              · rw [messages_empty es hmore hbody]
              · rw [messages_more es hmore hbody, completeBody_more rfl]

/-- The status of a message is that of its event. -/
theorem toNat_status {status : Option Int} {headers : Option (List (Text × Text))}
    (hfits : SendEvent.FitsStatus (.responseStart status headers)) :
    ((UInt32.ofNat (status.getD 200).toNat).toNat : Int) = status.getD 200 := by
  obtain ⟨hnonneg, hlt⟩ := hfits
  have hsmall : (status.getD 200).toNat < UInt32.size := by
    change _ < 2 ^ 32
    omega
  rw [UInt32.toNat_ofNat_of_lt' hsmall]
  omega

/-- A response is complete exactly when the app sends it to its end. -/
theorem complete_messages (events : List SendEvent)
    (hstatus : ∀ e ∈ through SendEvent.last events, e.FitsStatus) :
    Complete (messages events) ↔ CompleteTrace events := by
  induction events with
  | nil => exact iff_of_false not_complete_nil not_completeTrace_nil
  | cons e es ih =>
      have hrest (hlast : e.last = false) : ∀ e ∈ through SendEvent.last es, e.FitsStatus := by
        intro e' he'
        apply hstatus
        simp only [through, hlast, Bool.false_eq_true, if_false]
        exact List.mem_cons_of_mem _ he'
      cases e with
      | disconnect => exact iff_of_false not_complete_nil not_completeTrace_disconnect
      | other type => rw [messages_other, completeTrace_other, ih (hrest rfl)]
      | responseBody body moreBody =>
          rw [completeTrace_body]
          cases hmore : moreBody.getD false with
          | false =>
              rw [messages_last es body hmore]
              exact iff_of_false not_complete_body (by simp)
          | true =>
              by_cases hbody : body.getD [] = []
              · rw [messages_empty es hmore hbody, ih (hrest (by simp [SendEvent.last, hmore]))]
                simp [hbody]
              · rw [messages_more es hmore hbody]
                exact iff_of_false not_complete_body (by simp [hbody])
      | responseStart status headers =>
          obtain ⟨head, hhead, hmessages⟩ := messages_start es status headers
          have hcode := toNat_status (hstatus _ List.mem_cons_self)
          rw [← hhead] at hcode
          rw [hmessages, complete_start, completeTrace_start, ih (hrest rfl), completeBody_messages,
            ← hcode]
          norm_cast

/-! ## Success and completeness -/

namespace Process

variable {σ : Type} {app : AsgiApp σ}

/-- A call that succeeds after a valid first message has yielded a complete
response exactly when the app has sent one to its end. -/
theorem complete_iff {u : Unicode} {requests : List Proto.ProcessingRequest} {s : Process σ}
    (hvalid : process u app requests = .running s) (schedule : List Task)
    (hok : (s.run app schedule).ended = some .stopped) :
    Complete (s.run app schedule).yielded ↔ CompleteTrace (s.run app schedule).events := by
  obtain ⟨hyielded, hstatus, -⟩ := (sound_of_process hvalid schedule).position.at_end hok
  rw [hyielded]
  exact complete_messages _ hstatus

end Process

theorem complete_iff_three :
    let s := (opened threeEvents).run (scripted threeEvents true)
      [.app, .app, .app, .app, .consumer, .consumer, .consumer]
    s.ended = some .stopped ∧ (Complete s.yielded ↔ CompleteTrace s.events) :=
  ⟨by decide,
    Process.complete_iff (process_scripted .ascii threeEvents true { headers := [] }) _ (by decide)⟩

/-- An app that raises after its `http.response.start`, and one that raises
before it: the calls succeed, with a response that has no body and with none. -/
theorem raised_app_succeeds :
    let start := [SendEvent.responseStart (some 200) none]
    let late := (opened start).run (scripted start true) [.app, .app, .consumer, .consumer]
    let early := (opened []).run (scripted [] true) [.app, .consumer]
    (late.ended = some .stopped ∧ ¬Complete late.yielded) ∧
      early.ended = some .stopped ∧ ¬Complete early.yielded := by
  intro start late early
  have hlate : late.yielded = [.responseHeaders { status := 200, headers := [] }] := by decide
  have hearly : early.yielded = [] := by decide
  refine ⟨⟨by decide, ?_⟩, by decide, ?_⟩
  · rw [hlate, complete_start]
    rintro (⟨hcode, -⟩ | ⟨-, hbody⟩)
    · exact absurd hcode (by decide)
    · exact not_completeBody_nil hbody
  · rw [hearly]
    exact not_complete_nil

end Grpcgi.Python.Http
