import Mathlib.Data.Set.List
import Grpcgi.Python.Schedule

/-!
# The outbound side of a WebSocket connection

What the client gets of what the app sends, for every app and under every schedule:
the frames of the app's messages in order, up to the app's `websocket.close` or its
end, and before them at most one piece of initial metadata, the subprotocol of the
first `websocket.accept` that names one. An app ends the call with an exception when it
names a subprotocol that `send_initial_metadata` refuses, as it does after the first one
and after a message, and when it sends a text with a surrogate in it.
-/

namespace Grpcgi.Python.Ws

open Pipeline (End Line drain)

/-- The items of the send queue that the app has put. -/
def SendItem.event? : SendItem → Option SendEvent
  | .event e => some e
  | .appDone => none

namespace SendEvent

/-- The frame of a message. -/
def frame? : SendEvent → Option Proto.Frame
  | .send (some text) _ => (encodeText text).map fun payload => { payload, binary := false }
  | .send none (some data) => some { payload := data, binary := true }
  | _ => none

/-- The subprotocol that the app settles on. -/
def subprotocol? : SendEvent → Option PyStr
  | .accept (some subprotocol) => if subprotocol = [] then none else some subprotocol
  | _ => none

/-- The text of a message can be sent. -/
def Encodes : SendEvent → Prop
  | .send (some text) _ => (encodeText text).isSome
  | _ => True

/-- The client gets something for the event. -/
def Speaks (e : SendEvent) : Prop := e.frame?.isSome ∨ e.subprotocol?.isSome

instance (e : SendEvent) : Decidable e.Speaks :=
  inferInstanceAs (Decidable (_ ∨ _))

end SendEvent

/-- The `sec-websocket-protocol` of the answer. -/
def protocolOutput (subprotocol : PyStr) : Output :=
  .initialMetadata (protocolMetadata subprotocol)

/-- What the app sends before it closes. -/
def beforeClose (events : List SendEvent) : List SendEvent :=
  events.takeWhile fun e => decide (e ≠ .close)

/-- A subprotocol is named before anything else is said to the client. -/
def InTime (events : List SendEvent) : Prop :=
  ∀ before e after, events = before ++ e :: after → e.subprotocol?.isSome →
    ∀ b ∈ before, ¬ b.Speaks

/-! ## The loop on the events of an app -/

/-- The loop goes on after these events, and has put out this for them. -/
structure Passed (events : List SendEvent) (output : List Output) : Prop where
  not_closed : .close ∉ events
  in_time : InTime events
  encodes : ∀ e ∈ events, e.Encodes
  output_eq : output = (events.filterMap SendEvent.subprotocol?).map protocolOutput ++
    (events.filterMap SendEvent.frame?).map .frame

theorem passed_nil : Passed [] [] where
  not_closed := List.not_mem_nil
  in_time := by
    intro before e after h
    cases before <;> cases h
  encodes := fun e he => absurd he List.not_mem_nil
  output_eq := rfl

theorem Passed.output_nonempty {events : List SendEvent} {output : List Output}
    (h : Passed events output) : output ≠ [] ↔ ∃ e ∈ events, e.Speaks := by
  rw [h.output_eq, ne_eq, List.append_eq_nil_iff, List.map_eq_nil_iff, List.map_eq_nil_iff,
    List.filterMap_eq_nil_iff, List.filterMap_eq_nil_iff]
  constructor
  · intro hsome
    by_contra hnone
    apply hsome
    constructor
    · intro e he
      by_contra hsub
      exact hnone ⟨e, he, .inr (Option.isSome_iff_ne_none.mpr hsub)⟩
    · intro e he
      by_contra hframe
      exact hnone ⟨e, he, .inl (Option.isSome_iff_ne_none.mpr hframe)⟩
  · rintro ⟨e, he, hspeaks⟩ ⟨hsub, hframe⟩
    obtain hspeaks | hspeaks := hspeaks
    · exact Option.isSome_iff_ne_none.mp hspeaks (hframe e he)
    · exact Option.isSome_iff_ne_none.mp hspeaks (hsub e he)

/-- One more event is in time if it names no subprotocol, or nothing was said
before. -/
theorem InTime.concat {events : List SendEvent} (h : InTime events) {e : SendEvent}
    (he : e.subprotocol?.isSome → ∀ b ∈ events, ¬ b.Speaks) : InTime (events ++ [e]) := by
  intro before e' after heq hsub
  obtain rfl | ⟨after, last, rfl⟩ := List.eq_nil_or_concat' after
  · obtain ⟨rfl, hlast⟩ := List.append_inj' heq rfl
    obtain rfl := List.singleton_inj.mp hlast
    exact he hsub
  · have hsplit : events ++ [e] = (before ++ e' :: after) ++ [last] := by
      rw [heq, List.append_assoc, List.cons_append]
    obtain ⟨heq, -⟩ := List.append_inj' hsplit rfl
    exact h before e' after heq hsub

theorem InTime.of_append {events more : List SendEvent} (h : InTime (events ++ more)) :
    InTime events := by
  intro before e after heq
  apply h before e (after ++ more)
  rw [heq, List.append_assoc, List.cons_append]

theorem Passed.event {events : List SendEvent} {output : List Output} (h : Passed events output)
    {e : SendEvent} (hclose : e ≠ .close) (hencodes : e.Encodes)
    (hsub : e.subprotocol?.isSome → output = []) {out : Option Output}
    (hout : out.toList = (e.subprotocol?.map protocolOutput).toList ++
      (e.frame?.map Output.frame).toList)
    (hone : e.subprotocol? = none ∨ e.frame? = none) :
    Passed (events ++ [e]) (output ++ out.toList) where
  not_closed := by
    intro hmem
    obtain hmem | hmem := List.mem_append.mp hmem
    · exact h.not_closed hmem
    · exact hclose (List.mem_singleton.mp hmem).symm
  in_time := by
    apply h.in_time.concat
    intro hsome b hb hspeaks
    exact h.output_nonempty.mpr ⟨b, hb, hspeaks⟩ (hsub hsome)
  encodes := by
    intro b hb
    obtain hb | hb := List.mem_append.mp hb
    · exact h.encodes b hb
    · exact List.mem_singleton.mp hb ▸ hencodes
  output_eq := by
    rw [hout]
    cases hprotocol : e.subprotocol? with
    | none =>
        rw [h.output_eq]
        cases hframe : e.frame? <;> simp [hprotocol, hframe]
    | some subprotocol =>
        -- nothing has been put out so far, so the metadata comes first
        have hnil : output = [] := hsub (by rw [hprotocol]; rfl)
        have hframe : e.frame? = none := hone.resolve_left (by rw [hprotocol]; simp)
        have houtput := h.output_eq
        rw [hnil, eq_comm, List.append_eq_nil_iff, List.map_eq_nil_iff,
          List.map_eq_nil_iff] at houtput
        simp [hnil, hprotocol, hframe, houtput.1, houtput.2]

/-- The call raises at this event, after this output: a text with a surrogate, or a
subprotocol that is refused. -/
def Refused (context : ServicerContext) (output : List Output) (e : SendEvent) : Prop :=
  ¬ e.Encodes ∨ ∃ subprotocol, e.subprotocol? = some subprotocol ∧
    context.sendsMetadata output (protocolMetadata subprotocol) = false

/-- What the loop makes of the next event. -/
theorem Passed.consume {events : List SendEvent} {output : List Output}
    (h : Passed events output) (context : ServicerContext) (e : SendEvent) :
    (consume context output (.event e)).2 = none ∧
      Passed (events ++ [e]) (output ++ (consume context output (.event e)).1.toList) ∨
    e = .close ∧ consume context output (.event e) = (none, some .stopped) ∨
    e ≠ .close ∧ Refused context output e ∧
      consume context output (.event e) = (none, some .raised) := by
  cases e with
  | accept subprotocol =>
      cases subprotocol with
      | none =>
          refine .inl ⟨rfl, h.event (by simp) (by trivial) ?_ rfl (.inl rfl)⟩
          rintro ⟨⟩
      | some subprotocol =>
          by_cases hempty : subprotocol = []
          · simp only [Ws.consume, hempty, if_true, true_and]
            refine .inl (h.event (by simp) (by trivial) ?_ ?_ ?_) <;>
              simp [SendEvent.subprotocol?, SendEvent.frame?]
          · by_cases hsends : context.sendsMetadata output (protocolMetadata subprotocol) = true
            · have hsent : output = [] := by
                by_contra hne
                rw [context.sends_once output _ hne] at hsends
                cases hsends
              simp only [Ws.consume, hempty, hsends, if_false, if_true, true_and]
              refine .inl (h.event (by simp) (by trivial) (fun _ => hsent) ?_ (.inr rfl))
              simp [SendEvent.subprotocol?, SendEvent.frame?, hempty, protocolOutput]
            · have hrefused := Bool.not_eq_true _ ▸ hsends
              refine .inr (.inr ⟨by simp, .inr ⟨subprotocol, ?_, hrefused⟩, ?_⟩)
              · simp [SendEvent.subprotocol?, hempty]
              · simp [Ws.consume, hempty, hrefused]
  | send text data =>
      cases text with
      | some text =>
          cases hencode : encodeText text with
          | some payload =>
              simp only [Ws.consume, hencode, true_and]
              refine .inl (h.event (by simp) ?_ (by rintro ⟨⟩) ?_ (.inl rfl))
              · rw [SendEvent.Encodes, hencode]
                rfl
              · simp [SendEvent.subprotocol?, SendEvent.frame?, hencode]
          | none =>
              refine .inr (.inr ⟨by simp, .inl ?_, by simp only [Ws.consume, hencode]⟩)
              rw [SendEvent.Encodes, hencode]
              exact Bool.false_ne_true
      | none =>
          cases data with
          | some data =>
              exact .inl ⟨rfl, h.event (by simp) (by trivial) (by rintro ⟨⟩) rfl (.inl rfl)⟩
          | none => exact .inl ⟨rfl, h.event (by simp) (by trivial) (by rintro ⟨⟩) rfl (.inl rfl)⟩
  | close => exact .inr (.inl ⟨rfl, rfl⟩)
  | other type => exact .inl ⟨rfl, h.event (by simp) (by trivial) (by rintro ⟨⟩) rfl (.inl rfl)⟩

/-- The loop that has taken some events and goes on. -/
theorem passed_drain {context : ServicerContext} {events : List SendEvent}
    (h : (drain (consume context) [] (events.map SendItem.event)).2 = none) :
    Passed events (drain (consume context) [] (events.map SendItem.event)).1 := by
  induction events using List.reverseRecOn with
  | nil => exact passed_nil
  | append_singleton events e ih =>
      rw [List.map_append, List.map_singleton] at h ⊢
      by_cases hbefore : (drain (consume context) [] (events.map SendItem.event)).2.isSome
      · rw [Pipeline.drain_append_of_ended hbefore] at h
        rw [h] at hbefore
        cases hbefore
      · have hgo := Option.not_isSome_iff_eq_none.mp hbefore
        have hpassed := ih hgo
        rw [Pipeline.drain_append hgo] at h ⊢
        generalize (drain (consume context) [] (events.map SendItem.event)).1 = output
          at h hpassed ⊢
        obtain ⟨hnone, hnext⟩ | ⟨-, hstop⟩ | ⟨-, -, hraise⟩ := hpassed.consume context e
        · simp only [drain, hnone]
          exact hnext
        · simp only [drain, hstop] at h
          cases h
        · simp only [drain, hraise] at h
          cases h

/-! ## The client's view -/

namespace Connect

variable {context : ServicerContext} {σ : Type} {app : AsgiApp σ} {s : Connect context σ}

/-- The events that the app has put so far. -/
def events (s : Connect context σ) : List SendEvent :=
  s.responses.queue.history.filterMap SendItem.event?

/-- What has become of the app's events. -/
inductive Position (s : Connect context σ) : Prop where
  | running (es : List SendEvent) (hevents : es <+: s.events)
      (hpassed : Passed es s.responses.output) (hended : s.ended = none)
  | closed (es : List SendEvent) (hevents : es ++ [.close] <+: s.events)
      (hpassed : Passed es s.responses.output) (hended : s.ended = some .stopped)
  | left (hpassed : Passed s.events s.responses.output) (happ : s.app = none)
      (hended : s.ended = some .stopped)
  | raised (es : List SendEvent) (e : SendEvent) (hevents : es ++ [e] <+: s.events)
      (hpassed : Passed es s.responses.output) (hclose : e ≠ .close)
      (hrefused : Refused context s.responses.output e) (hended : s.ended = some .raised)

/-- What the line of the three tasks keeps. -/
structure Sound (s : Connect context σ) : Prop where
  history_eq : s.responses.queue.history =
    s.events.map .event ++ if s.app.isNone then [.appDone] else []
  result_eq : s.result = drain (consume context) [] s.responses.queue.consumed

theorem filterMap_event (events : List SendEvent) :
    (events.map SendItem.event).filterMap SendItem.event? = events := by
  rw [List.filterMap_map]
  exact List.filterMap_some

theorem sound_run (u : Unicode) (app : AsgiApp σ) (context : ServicerContext)
    (frames : List Proto.Frame) (schedule : List Task) :
    ((connect u app context frames).run app schedule).Sound := by
  let s := connect u app context frames
  have hline : (s.run app schedule).line =
      s.line.run (tasks context app) (schedule.map Task.turn) :=
    Line.view_foldl line_step schedule s
  have hstart := line_start u app context frames
  have hempty : Line.Holds (tasks context app) s.line :=
    ⟨[], rfl, fun _ h => absurd h List.not_mem_nil⟩
  obtain ⟨n, htracks, -⟩ := hstart.run (schedule.map Task.turn)
  have hholds := hempty.run (schedule.map Task.turn)
  rw [← hline] at htracks hholds
  obtain ⟨puts, hhistory, hputs⟩ := hholds
  refine ⟨?_, htracks.result⟩
  have hevent : ∀ item ∈ puts, ∃ e, SendItem.event e = item := by
    intro item hitem
    obtain ⟨x, next, hact⟩ := hputs item hitem
    simp only [tasks] at hact
    split at hact
    · rename_i e _ _
      exact ⟨e, (Pipeline.Act.put.inj hact).1⟩
    · cases hact
    · cases hact
    · cases hact
  obtain ⟨es, rfl⟩ : puts ∈ Set.range (List.map SendItem.event) := by
    rw [Set.range_list_map]
    exact hevent
  have hevents : (s.run app schedule).events = es := by
    rw [events]
    have hqueue : (s.run app schedule).responses.queue.history = _ := hhistory
    rw [hqueue, List.filterMap_append, filterMap_event]
    split <;> exact List.append_nil _
  rw [hevents]
  exact hhistory

/-- Items in front of the queue are events, unless they are all there is and the app
is over. -/
theorem Sound.items (h : s.Sound) {items : List SendItem}
    (hitems : items <+: s.responses.queue.history) :
    (∃ es, es <+: s.events ∧ items = es.map .event) ∨
      items = s.events.map .event ++ [.appDone] ∧ s.app = none := by
  rw [h.history_eq] at hitems
  split at hitems
  · rename_i hover
    obtain hall | hitems := List.prefix_concat_iff.mp hitems
    · exact .inr ⟨hall, Option.isNone_iff_eq_none.mp hover⟩
    · exact .inl (List.prefix_map_iff.mp hitems)
  · rw [List.append_nil] at hitems
    exact .inl (List.prefix_map_iff.mp hitems)

theorem Sound.position (h : s.Sound) : s.Position := by
  have hresult := h.result_eq
  have houtput : s.responses.output = (drain (consume context) [] s.responses.queue.consumed).1 :=
    congrArg Prod.fst hresult
  have hended : s.ended = (drain (consume context) [] s.responses.queue.consumed).2 :=
    congrArg Prod.snd hresult
  have hconsumed := s.responses.queue.consumed_prefix
  cases hend : (drain (consume context) [] s.responses.queue.consumed).2 with
  | none =>
      obtain ⟨es, hes, heq⟩ | ⟨hall, -⟩ := h.items hconsumed
      · rw [heq] at hend houtput hended
        exact .running es hes (houtput ▸ passed_drain hend) (hended.trans hend)
      · exfalso
        rw [hall] at hend
        by_cases hbefore : (drain (consume context) [] (s.events.map SendItem.event)).2.isSome
        · rw [Pipeline.drain_append_of_ended hbefore] at hend
          rw [hend] at hbefore
          cases hbefore
        · rw [Pipeline.drain_append (Option.not_isSome_iff_eq_none.mp hbefore)] at hend
          cases hend
  | some e =>
      obtain ⟨before, x, after, hsplit, hgo, hstop, hdrain⟩ := Pipeline.drain_ended hend
      rw [hend] at hended
      rw [hdrain] at houtput
      rw [hsplit, ← List.singleton_append, ← List.append_assoc] at hconsumed
      obtain ⟨es, hes, heq⟩ | ⟨hall, happ⟩ := h.items ((List.prefix_append _ _).trans hconsumed)
      · obtain ⟨es, l, rfl, rfl, hx⟩ := List.append_eq_map_iff.mp heq
        obtain ⟨e', rfl, rfl⟩ := List.map_eq_singleton_iff.mp hx
        have hpassed := passed_drain hgo
        obtain ⟨hnone, -⟩ | ⟨rfl, hclose⟩ | ⟨hclose, hrefused, hraise⟩ := hpassed.consume context e'
        · rw [hnone] at hstop
          cases hstop
        · simp only [hclose, Option.toList_none, List.append_nil] at houtput hstop
          obtain rfl := Option.some.inj hstop
          exact .closed es hes (houtput ▸ hpassed) hended
        · simp only [hraise, Option.toList_none, List.append_nil] at houtput hstop
          obtain rfl := Option.some.inj hstop
          exact .raised es e' hes (houtput ▸ hpassed) hclose (houtput ▸ hrefused) hended
      · obtain ⟨hbefore, hx⟩ := List.append_inj' hall rfl
        obtain rfl := List.singleton_inj.mp hx
        subst hbefore
        simp only [Ws.consume, Option.toList_none, List.append_nil] at houtput hstop
        obtain rfl := Option.some.inj hstop
        exact .left (houtput ▸ passed_drain hgo) happ hended

/-- The client gets the messages that the app sends before it closes, in order, and
before them the subprotocol that it settled on in time. A call raises only at an event that
cannot be sent, with everything before it sent. -/
structure InOrder (s : Connect context σ) : Prop where
  metadata_first : ∃ subprotocols, subprotocols.length ≤ 1 ∧
    subprotocols <+: (beforeClose s.events).filterMap SendEvent.subprotocol? ∧
    s.responses.output = subprotocols.map protocolOutput ++ s.yielded.map .frame
  frames : s.yielded <+: (beforeClose s.events).filterMap SendEvent.frame?
  at_end : s.ended = some .stopped → (.close ∈ s.events ∨ s.app = none) ∧
    s.yielded = (beforeClose s.events).filterMap SendEvent.frame? ∧
      InTime (beforeClose s.events) ∧ ∀ e ∈ beforeClose s.events, e.Encodes
  raised : s.ended = some .raised → ∃ es e, es ++ [e] <+: beforeClose s.events ∧
    s.yielded = es.filterMap SendEvent.frame? ∧ Refused context s.responses.output e

theorem yielded_eq {es : List SendEvent} (h : Passed es s.responses.output) :
    s.yielded = es.filterMap SendEvent.frame? := by
  rw [yielded, h.output_eq, List.filterMap_append, List.filterMap_map, List.filterMap_map]
  have hmetadata : Output.frame? ∘ protocolOutput = fun _ => none := rfl
  have hframes : Output.frame? ∘ Output.frame = some := rfl
  rw [hmetadata, hframes, List.filterMap_none, List.filterMap_some, List.nil_append]

theorem length_subprotocols {es : List SendEvent} (h : InTime es) :
    (es.filterMap SendEvent.subprotocol?).length ≤ 1 := by
  induction es using List.reverseRecOn with
  | nil => exact Nat.zero_le 1
  | append_singleton es e ih =>
      rw [List.filterMap_append, List.length_append]
      cases hsub : e.subprotocol? with
      | none => simpa [hsub] using ih h.of_append
      | some subprotocol =>
          have hsilent := h es e [] rfl (by rw [hsub]; rfl)
          have hnil : es.filterMap SendEvent.subprotocol? = [] := by
            rw [List.filterMap_eq_nil_iff]
            intro b hb
            by_contra hb'
            exact hsilent b hb (.inr (Option.isSome_iff_ne_none.mpr hb'))
          simp [hnil, hsub]

theorem beforeClose_append {es : List SendEvent} (h : .close ∉ es) (more : List SendEvent) :
    beforeClose (es ++ more) = es ++ beforeClose more := by
  apply List.takeWhile_append_of_pos
  intro e he
  rw [decide_eq_true_eq]
  rintro rfl
  exact h he

/-- The output for events that the app sent before it closed. -/
theorem metadata_first {es : List SendEvent} (h : Passed es s.responses.output)
    (hes : es <+: beforeClose s.events) : ∃ subprotocols, subprotocols.length ≤ 1 ∧
      subprotocols <+: (beforeClose s.events).filterMap SendEvent.subprotocol? ∧
      s.responses.output = subprotocols.map protocolOutput ++ s.yielded.map .frame := by
  refine ⟨es.filterMap SendEvent.subprotocol?, length_subprotocols h.in_time,
    hes.filterMap _, ?_⟩
  rw [yielded_eq h, ← h.output_eq]

theorem Position.inOrder (h : s.Position) : s.InOrder := by
  have hbefore : ∀ es more : List SendEvent, Passed es s.responses.output →
      es ++ more <+: s.events → es <+: beforeClose s.events := by
    rintro es more hpassed ⟨rest, heq⟩
    rw [← heq, List.append_assoc, beforeClose_append hpassed.not_closed]
    exact List.prefix_append _ _
  cases h with
  | running es hevents hpassed hended =>
      have hes := hbefore es [] hpassed (by rwa [List.append_nil])
      exact ⟨metadata_first hpassed hes, yielded_eq hpassed ▸ hes.filterMap _,
        by simp [hended], by simp [hended]⟩
  | closed es hevents hpassed hended =>
      have hes := hbefore es _ hpassed hevents
      have hclose : .close ∈ s.events :=
        hevents.subset (List.mem_append_right es (List.mem_singleton_self _))
      obtain ⟨rest, hrest⟩ := hevents
      have hall : beforeClose s.events = es := by
        rw [← hrest, List.append_assoc, beforeClose_append hpassed.not_closed]
        exact List.append_nil es
      exact ⟨metadata_first hpassed hes, yielded_eq hpassed ▸ hes.filterMap _,
        fun _ => ⟨.inl hclose, hall.symm ▸ ⟨yielded_eq hpassed, hpassed.in_time, hpassed.encodes⟩⟩,
        by simp [hended]⟩
  | left hpassed happ hended =>
      have hall : beforeClose s.events = s.events := by
        have happend := beforeClose_append hpassed.not_closed []
        rw [List.append_nil] at happend
        rw [happend]
        exact List.append_nil _
      have hes : s.events <+: beforeClose s.events := hall.symm ▸ List.prefix_rfl
      exact ⟨metadata_first hpassed hes, yielded_eq hpassed ▸ hes.filterMap _,
        fun _ => ⟨.inr happ, hall.symm ▸ ⟨yielded_eq hpassed, hpassed.in_time, hpassed.encodes⟩⟩,
        by simp [hended]⟩
  | raised es e hevents hpassed hclose hrefused hended =>
      have hes := hbefore es _ hpassed hevents
      refine ⟨metadata_first hpassed hes, yielded_eq hpassed ▸ hes.filterMap _,
        by simp [hended], fun _ => ⟨es, e, ?_, yielded_eq hpassed, hrefused⟩⟩
      obtain ⟨rest, hrest⟩ := hevents
      have hopen : .close ∉ es ++ [e] := by
        intro hmem
        obtain hmem | hmem := List.mem_append.mp hmem
        · exact hpassed.not_closed hmem
        · exact hclose (List.mem_singleton.mp hmem).symm
      rw [← hrest, beforeClose_append hopen]
      exact List.prefix_append _ _

end Connect

/-- Whatever the app does and however the tasks take turns, the client gets the app's
messages in order. -/
theorem outbound_in_order {σ : Type} (u : Unicode) (app : AsgiApp σ)
    (context : ServicerContext) (frames : List Proto.Frame) (schedule : List Task) :
    ((connect u app context frames).run app schedule).InOrder :=
  (Connect.sound_run u app context frames schedule).position.inOrder

end Grpcgi.Python.Ws
