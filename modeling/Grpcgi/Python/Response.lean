import Grpcgi.Python.Process

/-!
# The responses of the streaming HTTP bridge

What the client of `Process` gets, whatever the schedule: the translation of the
app's events in order, up to the event that ends the response. An app that stops
or raises before its response is complete ends the stream in the same way as one
that has finished, and the call succeeds. A status that is no `uint32` ends it by
an exception of protobuf.
-/

namespace Grpcgi.Python.Http

open Pipeline (End through through_append through_of_unmarked)

/-! ## Events and their translation -/

/-- The text of a header name or value that can be decoded. -/
def Text.text (t : Text) : Str := t.decode.getD []

namespace SendEvent

/-- Header names and values are UTF-8. -/
def Utf8 : SendEvent → Prop
  | .responseStart _ headers =>
    ∀ h ∈ headers.getD [], h.1.decode.isSome ∧ h.2.decode.isSome
  | _ => True

/-- The status is one that the message has room for. -/
def FitsStatus : SendEvent → Prop
  | .responseStart status _ => 0 ≤ status.getD 200 ∧ status.getD 200 < 2 ^ 32
  | _ => True

instance : DecidablePred Utf8 := fun e => by
  cases e <;> unfold Utf8 <;> infer_instance

/-- The events that end a response: the final body and `http.disconnect`. -/
def last : SendEvent → Bool
  | .responseBody _ moreBody => !moreBody.getD false
  | .disconnect => true
  | _ => false

/-- The message for an event; an empty body that is not the last has none. -/
def translation : SendEvent → Option Proto.ProcessingResponse
  | .responseStart status headers =>
    some (.responseHeaders {
      status := UInt32.ofNat (status.getD 200).toNat
      headers := (headers.getD []).map fun h => ⟨h.1.text, .value h.2.text⟩ })
  | .responseBody body moreBody =>
    if body.getD [] = [] ∧ moreBody.getD false = true then none
    else some (.responseBody { data := body.getD [], endOfStream := !moreBody.getD false })
  | _ => none

end SendEvent

open SendEvent (translation)

theorem decodeHeaders_utf8 (headers : List (Text × Text))
    (h : ∀ h ∈ headers, h.1.decode.isSome ∧ h.2.decode.isSome) :
    decodeHeaders headers = some (headers.map fun h => ⟨h.1.text, .value h.2.text⟩) := by
  induction headers with
  | nil => rfl
  | cons header headers ih =>
      obtain ⟨⟨hkey, hvalue⟩, hrest⟩ := List.forall_mem_cons.mp h
      obtain ⟨key, hkey⟩ := Option.isSome_iff_exists.mp hkey
      obtain ⟨value, hvalue⟩ := Option.isSome_iff_exists.mp hvalue
      have ih := ih hrest
      simp only [decodeHeaders] at ih
      simp only [decodeHeaders, List.mapM_cons, hkey, hvalue, ih, List.map_cons, Text.text]
      rfl

theorem utf8_of_decodeHeaders {headers : List (Text × Text)} {decoded : List Proto.Header}
    (h : decodeHeaders headers = some decoded) :
    ∀ h ∈ headers, h.1.decode.isSome ∧ h.2.decode.isSome := by
  induction headers generalizing decoded with
  | nil => exact fun h hmem => absurd hmem List.not_mem_nil
  | cons header headers ih =>
      simp only [decodeHeaders, List.mapM_cons, Option.bind_eq_bind, Option.bind_eq_some_iff] at h
      obtain ⟨first, hfirst, rest, hrest, -⟩ := h
      refine List.forall_mem_cons.mpr ⟨?_, ih hrest⟩
      split at hfirst
      · rename_i key value hkey hvalue
        exact ⟨Option.isSome_of_eq_some hkey, Option.isSome_of_eq_some hvalue⟩
      · exact absurd hfirst (by simp)

/-- The loop body translates an event that can be translated, and ends the loop
at the last one. -/
theorem consume_event {e : SendEvent} (hutf8 : e.Utf8) (hstatus : e.FitsStatus) :
    consume (.event e) = (translation e, if e.last then some .stopped else none) := by
  cases e with
  | responseStart status headers =>
      have hstatus : toUInt32 (status.getD 200) = some (UInt32.ofNat (status.getD 200).toNat) :=
        if_pos hstatus
      simp only [consume, decodeHeaders_utf8 _ hutf8, hstatus, translation, SendEvent.last,
        Bool.false_eq_true, if_false]
  | responseBody body moreBody =>
      simp only [consume, translation, SendEvent.last]
      obtain _ | _ | _ := moreBody <;> by_cases hbody : body.getD [] = [] <;> simp [hbody]
  | disconnect => rfl
  | other type => rfl

/-- The only events that raise are those that no message can carry. -/
theorem raised_or_carried (e : SendEvent) :
    consume (.event e) = (none, some .raised) ∧ ¬(e.Utf8 ∧ e.FitsStatus) ∨
      consume (.event e) = (translation e, if e.last then some .stopped else none) ∧
        e.Utf8 ∧ e.FitsStatus := by
  by_cases hcarried : e.Utf8 ∧ e.FitsStatus
  · exact .inr ⟨consume_event hcarried.1 hcarried.2, hcarried⟩
  · refine .inl ⟨?_, hcarried⟩
    cases e with
    | responseStart status headers =>
        simp only [consume]
        split
        · rename_i hheaders hstatus
          refine absurd ⟨utf8_of_decodeHeaders hheaders, ?_⟩ hcarried
          simp only [toUInt32] at hstatus
          split at hstatus
          · assumption
          · exact absurd hstatus (by simp)
        · rfl
    | responseBody body moreBody => exact absurd ⟨trivial, trivial⟩ hcarried
    | disconnect => exact absurd ⟨trivial, trivial⟩ hcarried
    | other type => exact absurd ⟨trivial, trivial⟩ hcarried

/-- The loop goes on after this event. -/
def SendEvent.Passes (e : SendEvent) : Prop := (consume (.event e)).2 = none

theorem SendEvent.Passes.spec {e : SendEvent} (h : e.Passes) :
    (consume (.event e)).1 = translation e ∧ e.last = false ∧ e.FitsStatus := by
  rw [SendEvent.Passes] at h
  obtain ⟨heq, -⟩ | ⟨heq, -, hstatus⟩ := raised_or_carried e
  · rw [heq] at h
    exact absurd h (by simp)
  · rw [heq] at h ⊢
    cases hlast : e.last with
    | false => exact ⟨rfl, rfl, hstatus⟩
    | true => simp [hlast] at h

theorem filterMap_passes {es : List SendEvent} (h : ∀ e ∈ es, e.Passes) :
    (es.map SendItem.event).filterMap (fun x => (consume x).1) = es.filterMap translation := by
  rw [List.filterMap_map]
  exact List.filterMap_congr fun e he => (h e he).spec.1

/-! ## Where the loop stands -/

namespace Process

variable {σ : Type} {app : AsgiApp σ}

/-- Where the loop stands in the events of the app. -/
inductive Position (s : Process σ) : Prop where
  | running (es : List SendEvent) (hevents : es <+: s.events) (hpass : ∀ e ∈ es, e.Passes)
      (hended : s.ended = none) (hout : s.yielded = es.filterMap translation)
  /-- it took `_APP_DONE` -/
  | exited (hpass : ∀ e ∈ s.events, e.Passes) (happ : s.app = none)
      (hended : s.ended = some .stopped) (hout : s.yielded = s.events.filterMap translation)
  | stopped (es : List SendEvent) (e : SendEvent) (hevents : es ++ [e] <+: s.events)
      (hpass : ∀ e ∈ es, e.Passes) (hlast : e.last = true) (hstatus : e.FitsStatus)
      (hended : s.ended = some .stopped)
      (hout : s.yielded = (es ++ [e]).filterMap translation)
  | raised (es : List SendEvent) (e : SendEvent) (hevents : es ++ [e] <+: s.events)
      (hpass : ∀ e ∈ es, e.Passes) (hraise : ¬(e.Utf8 ∧ e.FitsStatus))
      (hended : s.ended = some .raised) (hout : s.yielded = es.filterMap translation)

theorem filterMap_singleton_toList {α β : Type} (f : α → Option β) (a : α) :
    [a].filterMap f = (f a).toList := by
  cases h : f a <;> simp [h]

/-- Items before `_APP_DONE` are events. -/
theorem map_event_filterMap {items : List SendItem} (h : .appDone ∉ items) :
    (items.filterMap SendItem.event?).map .event = items := by
  induction items with
  | nil => rfl
  | cons item items ih =>
      obtain ⟨hitem, hitems⟩ := not_or.mp (mt List.mem_cons.mpr h)
      cases item with
      | event e => exact congrArg (SendItem.event e :: ·) (ih hitems)
      | appDone => exact absurd rfl hitem

/-- A run of items that the loop passes is a run of the app's first events. -/
theorem events_of_passed {s : Process σ} {items : List SendItem}
    (hitems : items <+: s.responses.queue.history) (hpass : ∀ x ∈ items, (consume x).2 = none) :
    ∃ es, es <+: s.events ∧ (∀ e ∈ es, e.Passes) ∧ items = es.map .event := by
  have hdone : .appDone ∉ items := fun hmem => absurd (hpass _ hmem) (by simp [consume])
  refine ⟨items.filterMap SendItem.event?, hitems.filterMap _, ?_, ?_⟩
  · intro e he
    apply hpass
    rw [← map_event_filterMap hdone]
    exact List.mem_map_of_mem he
  · exact (map_event_filterMap hdone).symm

/-- When the loop has taken `_APP_DONE`, it has taken everything the app put. -/
theorem Sound.exited {s : Process σ} (h : s.Sound) {items : List SendItem}
    (hitems : items ++ [.appDone] <+: s.responses.queue.history) :
    s.app = none ∧ items = s.events.map .event := by
  have hearly : ¬items ++ [.appDone] <+: s.events.map SendItem.event := fun hprefix => by
    have hmem := hprefix.subset (List.mem_append_right items (List.mem_singleton_self _))
    obtain ⟨e, -, he⟩ := List.mem_map.mp hmem
    exact absurd he (by simp)
  rw [h.history_eq] at hitems
  cases happ : s.app with
  | some x =>
      rw [happ] at hitems
      exact absurd (by simpa using hitems) hearly
  | none =>
      rw [happ] at hitems
      obtain heq | hprefix := List.prefix_concat_iff.mp hitems
      · exact ⟨rfl, List.append_inj_left' heq rfl⟩
      · exact absurd hprefix hearly

/-- In every sound state the loop stands somewhere in the app's events. -/
theorem Sound.position {s : Process σ} (h : s.Sound) : s.Position := by
  have hout := h.follows.output_eq
  have hconsumed := s.responses.queue.consumed_prefix
  cases hended : s.ended with
  | none =>
      obtain ⟨es, hevents, hpass, heq⟩ := events_of_passed hconsumed (h.follows.running hended)
      rw [heq, filterMap_passes hpass] at hout
      exact .running es hevents hpass hended hout
  | some o =>
      obtain ⟨before, x, heq, hbefore, hx⟩ := h.follows.ended_at o hended
      rw [heq] at hconsumed hout
      obtain ⟨es, hevents, hpass, rfl⟩ :=
        events_of_passed ((List.prefix_append before [x]).trans hconsumed) hbefore
      rw [List.filterMap_append, filterMap_passes hpass] at hout
      cases x with
      | appDone =>
          obtain ⟨happ, hall⟩ := h.exited hconsumed
          obtain rfl := List.map_injective_iff.mpr (fun a b => SendItem.event.inj) hall
          obtain rfl : End.stopped = o := Option.some.inj hx
          exact .exited hpass happ hended (hout.trans (List.append_nil _))
      | event e =>
          have hevents : es ++ [e] <+: s.events := by
            have hfilter := hconsumed.filterMap SendItem.event?
            simpa [events, SendItem.event?, List.filterMap_append, Function.comp_def] using hfilter
          obtain ⟨hcons, hraise⟩ | ⟨hcons, -, hstatus⟩ := raised_or_carried e
          · rw [hcons] at hx
            obtain rfl : End.raised = o := Option.some.inj hx
            refine .raised es e hevents hpass hraise hended (hout.trans ?_)
            simp [hcons]
          · rw [hcons] at hx
            have hlast : e.last = true := by
              by_contra hlast
              simp [hlast] at hx
            simp only [hlast, if_true] at hx
            obtain rfl : End.stopped = o := Option.some.inj hx
            refine .stopped es e hevents hpass hlast hstatus hended (hout.trans ?_)
            rw [List.filterMap_append, filterMap_singleton_toList, filterMap_singleton_toList,
              hcons]

/-! ## Every response in order -/

/-- Every event up to the last one has a status that the message has room for. -/
def StatusesFit (s : Process σ) : Prop :=
  ∀ e ∈ through SendEvent.last s.events, e.FitsStatus

/-- The output is the translation of the first events of the app, in order. At the end it is
that of exactly the events that belong to the response, if the statuses fit. Otherwise the
generator raises at the first status that does not, and has yielded what came before. -/
structure InOrder (s : Process σ) : Prop where
  yielded_eq : ∃ es, es <+: s.events ∧ s.yielded = es.filterMap translation
  at_end : s.ended.isSome → s.StatusesFit → s.ended = some .stopped ∧
    s.yielded = (through SendEvent.last s.events).filterMap translation ∧
      ((∀ e ∈ s.events, e.last = false) → s.app = none)
  raised : s.ended.isSome → ¬ s.StatusesFit → s.ended = some .raised ∧
    ∃ es e, es ++ [e] <+: s.events ∧ (∀ e ∈ es, e.last = false ∧ e.FitsStatus) ∧
      ¬ e.FitsStatus ∧ s.yielded = es.filterMap translation
  nothing_after_last : ∀ before chunk after,
    s.yielded = before ++ .responseBody chunk :: after → chunk.endOfStream = true → after = []

/-- The translation of an event that is not the last does not end the stream. -/
theorem translation_open {e : SendEvent} (hlast : e.last = false) {chunk : Proto.BodyChunk}
    (h : translation e = some (.responseBody chunk)) : chunk.endOfStream = false := by
  cases e with
  | responseStart status headers => simp [translation] at h
  | responseBody body moreBody =>
      simp only [translation] at h
      split at h
      · exact absurd h (by simp)
      · obtain rfl := Proto.ProcessingResponse.responseBody.inj (Option.some.inj h)
        exact hlast
  | disconnect => simp [translation] at h
  | other type => simp [translation] at h

/-- Only the last message of such a translation can end the stream. -/
theorem after_last {es : List SendEvent} (hopen : ∀ e ∈ es, e.last = false)
    (final : Option Proto.ProcessingResponse) {before after : List Proto.ProcessingResponse}
    {chunk : Proto.BodyChunk}
    (h : es.filterMap translation ++ final.toList = before ++ .responseBody chunk :: after)
    (hend : chunk.endOfStream = true) : after = [] := by
  have habsent : .responseBody chunk ∉ es.filterMap translation := fun hmem => by
    obtain ⟨e, he, htr⟩ := List.mem_filterMap.mp hmem
    rw [translation_open (hopen e he) htr] at hend
    exact absurd hend (by decide)
  obtain rfl | ⟨after, last, rfl⟩ := List.eq_nil_or_concat after
  · rfl
  · refine absurd ?_ habsent
    cases final with
    | none =>
        rw [Option.toList_none, List.append_nil] at h
        rw [h]
        simp
    | some final =>
        rw [List.concat_eq_append, ← List.cons_append, ← List.append_assoc] at h
        rw [List.append_inj_left' h rfl]
        simp

/-- A generator that has returned has yielded exactly the messages of the events
up to the last one, or of all events of an app that is over. -/
theorem Position.at_end {s : Process σ} (h : s.Position) (hstop : s.ended = some .stopped) :
    s.yielded = (through SendEvent.last s.events).filterMap translation ∧
      (∀ e ∈ through SendEvent.last s.events, e.FitsStatus) ∧
      ((∀ e ∈ s.events, e.last = false) → s.app = none) := by
  cases h with
  | running es hevents hpass hended hout => simp [hended] at hstop
  | raised es e hevents hpass hraise hended hout => simp [hended] at hstop
  | exited hpass happ hended hout =>
      rw [through_of_unmarked fun e he => (hpass e he).spec.2.1]
      exact ⟨hout, fun e he => (hpass e he).spec.2.2, fun _ => happ⟩
  | stopped es e hevents hpass hlast hstatus hended hout =>
      have hthrough : through SendEvent.last s.events = es ++ [e] := by
        obtain ⟨rest, hrest⟩ := hevents
        rw [← hrest, List.append_assoc]
        exact through_append (fun e he => (hpass e he).spec.2.1) hlast rest
      rw [hthrough]
      refine ⟨hout, fun e' he' => ?_, fun hall => ?_⟩
      · obtain he' | he' := List.mem_append.mp he'
        · exact (hpass e' he').spec.2.2
        · rw [List.mem_singleton.mp he']
          exact hstatus
      · have hmem := hevents.subset (List.mem_append_right es (List.mem_singleton_self e))
        rw [hall e hmem] at hlast
        exact absurd hlast (by decide)

/-- What was yielded, as the messages of events that end nothing and at most one
more message. -/
theorem Position.yielded_split {s : Process σ} (h : s.Position) :
    ∃ (es : List SendEvent) (final : Option Proto.ProcessingResponse),
      (∀ e ∈ es, e.last = false) ∧ s.yielded = es.filterMap translation ++ final.toList := by
  cases h with
  | running es hevents hpass hended hout =>
      exact ⟨es, none, fun e he => (hpass e he).spec.2.1, by simp [hout]⟩
  | exited hpass happ hended hout =>
      exact ⟨s.events, none, fun e he => (hpass e he).spec.2.1, by simp [hout]⟩
  | stopped es e hevents hpass hlast hstatus hended hout =>
      refine ⟨es, translation e, fun e he => (hpass e he).spec.2.1, ?_⟩
      rw [hout, List.filterMap_append, filterMap_singleton_toList]
  | raised es e hevents hpass hraise hended hout =>
      exact ⟨es, none, fun e he => (hpass e he).spec.2.1, by simp [hout]⟩

theorem Position.yielded_prefix {s : Process σ} (h : s.Position) :
    ∃ es, es <+: s.events ∧ s.yielded = es.filterMap translation := by
  cases h with
  | running es hevents hpass hended hout => exact ⟨es, hevents, hout⟩
  | exited hpass happ hended hout => exact ⟨s.events, List.prefix_rfl, hout⟩
  | stopped es e hevents hpass hlast hstatus hended hout => exact ⟨es ++ [e], hevents, hout⟩
  | raised es e hevents hpass hraise hended hout =>
      exact ⟨es, (List.prefix_append es [e]).trans hevents, hout⟩

/-- Where every status fits, the generator does not raise. -/
theorem Position.not_raised {s : Process σ} (h : s.Position) (hutf8 : ∀ e ∈ s.events, e.Utf8)
    (hfit : s.StatusesFit) : s.ended ≠ some .raised := by
  intro hraised
  cases h with
  | running es hevents hpass hended hout => simp [hended] at hraised
  | exited hpass happ hended hout => simp [hended] at hraised
  | stopped es e hevents hpass hlast hstatus hended hout => simp [hended] at hraised
  | raised es e hevents hpass hraise hended hout =>
      have hmem := hevents.subset (List.mem_append_right es (List.mem_singleton_self e))
      obtain ⟨rest, hrest⟩ := hevents
      rw [List.append_assoc] at hrest
      have hthrough : e ∈ through SendEvent.last s.events :=
        hrest ▸ Pipeline.mem_through (fun e he => (hpass e he).spec.2.1) e rest
      exact hraise ⟨hutf8 e hmem, hfit e hthrough⟩

/-- A generator that raised did so at the first event that does not fit. -/
theorem Position.at_raise {s : Process σ} (h : s.Position) (hutf8 : ∀ e ∈ s.events, e.Utf8)
    (hraised : s.ended = some .raised) :
    ∃ es e, es ++ [e] <+: s.events ∧ (∀ e ∈ es, e.last = false ∧ e.FitsStatus) ∧
      ¬ e.FitsStatus ∧ s.yielded = es.filterMap translation := by
  cases h with
  | running es hevents hpass hended hout => simp [hended] at hraised
  | exited hpass happ hended hout => simp [hended] at hraised
  | stopped es e hevents hpass hlast hstatus hended hout => simp [hended] at hraised
  | raised es e hevents hpass hraise hended hout =>
      have hmem := hevents.subset (List.mem_append_right es (List.mem_singleton_self e))
      exact ⟨es, e, hevents, fun e he => (hpass e he).spec.2,
        fun hstatus => hraise ⟨hutf8 e hmem, hstatus⟩, hout⟩

theorem Position.inOrder {s : Process σ} (h : s.Position) (hutf8 : ∀ e ∈ s.events, e.Utf8) :
    s.InOrder where
  yielded_eq := h.yielded_prefix
  at_end := by
    intro hended hfit
    have hstop : s.ended = some .stopped := by
      obtain ⟨_ | _, hended⟩ := Option.isSome_iff_exists.mp hended
      · exact hended
      · exact absurd hended (h.not_raised hutf8 hfit)
    exact ⟨hstop, (h.at_end hstop).1, (h.at_end hstop).2.2⟩
  raised := by
    intro hended hfit
    have hraised : s.ended = some .raised := by
      obtain ⟨_ | _, hended⟩ := Option.isSome_iff_exists.mp hended
      · exact absurd (h.at_end hended).2.1 hfit
      · exact hended
    exact ⟨hraised, h.at_raise hutf8 hraised⟩
  nothing_after_last := by
    intro before chunk after heq hend
    obtain ⟨es, final, hopen, hsplit⟩ := h.yielded_split
    exact after_last hopen final (hsplit ▸ heq) hend

/-- Whatever the app does and however the tasks take turns, the responses are
the app's events in order, none lost and none twice. -/
theorem responses_in_order {u : Unicode} {messages : List Proto.ProcessingRequest} {s : Process σ}
    (hvalid : process u app messages = .running s) (schedule : List Task)
    (hutf8 : ∀ e ∈ (s.run app schedule).events, e.Utf8) : (s.run app schedule).InOrder :=
  (sound_of_process hvalid schedule).position.inOrder hutf8

end Process

/-- An app that sends a list of events and then returns or raises. -/
def scripted (events : List SendEvent) (raises : Bool) : AsgiApp (List SendEvent) where
  start _ := events
  action
    | [] => if raises then .raised else .returned
    | e :: es => .send e es

/-- A call that has just read its first message. -/
def opened (events : List SendEvent) : Process (List SendEvent) :=
  { pump := some [], app := some events }

theorem process_scripted (u : Unicode) (events : List SendEvent) (raises : Bool)
    (headers : Proto.RequestHeaders) :
    process u (scripted events raises) [.requestHeaders headers] = .running (opened events) :=
  rfl

/-- A response in three events; the loop overtakes the app and waits in between. -/
def threeEvents : List SendEvent :=
  [.responseStart none none, .responseBody (some [0x68]) (some true),
    .responseBody (some [0x69]) none]

theorem responses_in_order_three :
    let s := (opened threeEvents).run (scripted threeEvents false)
      [.app, .consumer, .consumer, .pump, .app, .app, .consumer, .consumer, .app]
    (∀ e ∈ s.events, e.Utf8) ∧ s.ended = some .stopped ∧ s.InOrder :=
  ⟨by decide, by decide,
    Process.responses_in_order (process_scripted .ascii threeEvents false { headers := [] }) _
      (by decide)⟩

/-- A response whose status is no `uint32`. -/
def negativeStatus : List SendEvent :=
  [.responseStart (some (-1)) none, .responseBody (some [0x68]) none]

/-- The generator ends by the exception of the first event, and the body that ends the response
is never yielded. -/
theorem negative_status_raises :
    let s := (opened negativeStatus).run (scripted negativeStatus false)
      [.app, .app, .app, .consumer, .consumer]
    process .ascii (scripted negativeStatus false) [.requestHeaders { headers := [] }] =
        .running (opened negativeStatus) ∧
      (∀ e ∈ s.events, e.Utf8) ∧ s.app = none ∧ s.ended = some .raised ∧ s.yielded = [] ∧
      through SendEvent.last s.events = negativeStatus ∧
      s.yielded ≠ (through SendEvent.last s.events).filterMap translation :=
  ⟨rfl, by decide, by decide, by decide, by decide, by decide, by decide⟩

end Grpcgi.Python.Http
