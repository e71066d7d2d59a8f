import Grpcgi.Wasm.Lifecycle

/-!
# An open that fails

The WASM filter is active from the 101 on, whether or not `open_grpc_stream` gives it
a stream. Without one it parses what the client sends and drops every message, and it
never tells the client. `Accounted` is the invariant: in the active state a handle
that names nothing means that the open has failed, that a Close has gone to the
client, or that the client has sent one.
-/

namespace Grpcgi.Wasm

open Incremental (Decoder)

/-! ## The frames of a callback -/

def isDataFrame (frame : UInt8 × Bytes) : Bool := frame.1 == 0x01 || frame.1 == 0x02

/-- The message that carries a data frame upstream. -/
def dataMessage (frame : UInt8 × Bytes) : Bytes := encodeFrameProto frame.2 (frame.1 == 0x02)

/-- The loop without its effects. -/
def parsedStep (frames : List (UInt8 × Bytes)) (frame : UInt8 × Bytes) :
    List (UInt8 × Bytes) × Bool :=
  (frames ++ [frame], frame.1 != 0x08)

/-- The frames that a callback parses in the active state, in order. -/
def parsedFrames (bits : Nat) (s : WsBridgeStream) : Event → List (UInt8 × Bytes)
  | .downstreamData (some chunk) =>
    if s.state = .active then
      ((wsDecoder bits).scan parsedStep [] (s.downstreamBuf ++ chunk)).1
    else []
  | _ => []

/-- The calls of a frame. -/
def frameEffect (id : Option UInt32) (frame : UInt8 × Bytes) : List Call :=
  if isDataFrame frame then
    id.toList.map fun t => .sendGrpcStreamMessage t (dataMessage frame) false
  else if frame.1 = 0x08 then id.toList.map .closeGrpcStream
  else if frame.1 = 0x09 then [.setDownstreamData 0 0 (encodeWsFrame 0x0A frame.2)]
  else []

theorem dispatchFrame_effect (s : WsBridgeStream) (frame : UInt8 × Bytes) :
    (dispatchFrame s frame).1.calls = s.calls ++ frameEffect s.grpcStreamId frame ∧
      (dispatchFrame s frame).1.grpcStreamId =
        if frame.1 = 0x08 then none else s.grpcStreamId := by
  obtain ⟨opcode, payload⟩ := frame
  have hdata : isDataFrame (opcode, payload) = true ↔ opcode = 0x01 ∨ opcode = 0x02 := by
    simp [isDataFrame]
  simp only [dispatchFrame, frameEffect, hdata, WsBridgeStream.emit]
  by_cases h : opcode = 0x01 ∨ opcode = 0x02
  · have hclose : opcode ≠ 0x08 := by
      rintro rfl
      revert h
      decide
    rw [if_pos h, if_pos h, if_neg hclose]
    cases hid : s.grpcStreamId with
    | none => exact ⟨(List.append_nil _).symm, hid⟩
    | some t => exact ⟨rfl, rfl⟩
  · rw [if_neg h, if_neg h]
    by_cases hclose : opcode = 0x08
    · rw [if_pos hclose, if_pos hclose, if_pos hclose]
      cases hid : s.grpcStreamId with
      | none => exact ⟨(List.append_nil _).symm, hid⟩
      | some t => exact ⟨rfl, rfl⟩
    · rw [if_neg hclose, if_neg hclose, if_neg hclose]
      split
      · exact ⟨rfl, rfl⟩
      · exact ⟨(List.append_nil _).symm, rfl⟩

/-- How a callback of the client leaves the filter: it has made the calls of the frames
that it parsed, and the handle is kept unless one of them was a Close. -/
structure Effected (s t : WsBridgeStream) (frames : List (UInt8 × Bytes)) : Prop where
  calls : t.calls = s.calls ++ frames.flatMap (frameEffect s.grpcStreamId)
  handle : t.grpcStreamId = if frames.any (·.1 == 0x08) then none else s.grpcStreamId

theorem scan_effected (bits : Nat) (s : WsBridgeStream) (bs : Bytes) :
    Effected s (leave ((wsDecoder bits).scan dispatchFrame s bs))
      ((wsDecoder bits).scan parsedStep [] bs).1 := by
  have hrelated : Decoder.Related
      (fun t frames => Effected s t frames ∧ frames.any (·.1 == 0x08) = false) (Effected s)
      ((wsDecoder bits).scan dispatchFrame s bs) ((wsDecoder bits).scan parsedStep [] bs) := by
    apply Decoder.scan_related (wsDecoder bits)
    · rintro t frames frame ⟨⟨hcalls, hhandle⟩, hopen⟩
      rw [hopen, if_neg Bool.false_ne_true] at hhandle
      obtain ⟨hmore, hafter⟩ := dispatchFrame_effect t frame
      have hany : (frames ++ [frame]).any (·.1 == 0x08) = (frame.1 == 0x08) := by
        rw [List.any_append, hopen]
        simp
      have heffected : Effected s (dispatchFrame t frame).1 (frames ++ [frame]) := by
        refine ⟨?_, ?_⟩
        · rw [hmore, hcalls, hhandle, List.flatMap_append, List.append_assoc,
            List.flatMap_singleton]
        · rw [hafter, hany, hhandle]
          simp
      refine ⟨(dispatchFrame t frame).1, (parsedStep frames frame).1, (dispatchFrame t frame).2,
        rfl, Prod.ext rfl (dispatchFrame_go t frame).symm, ?_, ?_⟩
      · intro hgo
        rw [dispatchFrame_go] at hgo
        refine ⟨heffected, ?_⟩
        show (frames ++ [frame]).any (·.1 == 0x08) = false
        rw [hany]
        simpa using hgo
      · intro _
        exact heffected
    · exact ⟨⟨by simp, rfl⟩, rfl⟩
  generalize (wsDecoder bits).scan dispatchFrame s bs = real at hrelated ⊢
  generalize (wsDecoder bits).scan parsedStep [] bs = ideal at hrelated ⊢
  cases hrelated with
  | rest h => exact ⟨h.1.calls, h.1.handle⟩
  | stopped h => exact ⟨h.calls, h.handle⟩
  | fault h => exact ⟨h.1.calls, h.1.handle⟩

/-- Nothing is parsed before the upgrade. -/
theorem parsedFrames_waiting {bits : Nat} {s : WsBridgeStream} {e : Event}
    (hstate : s.state ≠ .active) : parsedFrames bits s e = [] := by
  unfold parsedFrames
  split
  · exact if_neg hstate
  · rfl

/-- Bytes from the client, in any state. -/
theorem downstream_effected (env : Env) {s : WsBridgeStream} (hlive : s.trap = none)
    (chunk : Option Bytes) :
    Effected s (step env s (.downstreamData chunk))
      (parsedFrames env.bits s (.downstreamData chunk)) := by
  by_cases hstate : s.state = .active
  · cases chunk with
    | none =>
        have hsame : step env s (.downstreamData none) = s := by
          simp only [step, onDownstreamData, hstate, ite_self]
        rw [hsame]
        exact ⟨(List.append_nil _).symm, rfl⟩
    | some chunk =>
        rw [step_active hstate hlive, parsedFrames, if_pos hstate]
        obtain ⟨hcalls, hhandle⟩ := scan_effected env.bits { s with downstreamBuf := [] }
          (s.downstreamBuf ++ chunk)
        exact ⟨hcalls, hhandle⟩
  · obtain ⟨hcalls, hhandle, -⟩ := downstream_waiting env hstate chunk
    rw [parsedFrames_waiting hstate]
    exact ⟨hcalls.trans (List.append_nil _).symm, hhandle⟩

/-! ## What the calls of frames are -/

section Effects

variable (id : Option UInt32) (frames : List (UInt8 × Bytes))

/-- With a stream every data frame becomes a message, and without one none does. -/
theorem sentMessages_effect :
    sentMessages (frames.flatMap (frameEffect id)) =
      if id.isSome then (frames.filter isDataFrame).map dataMessage else [] := by
  induction frames with
  | nil => cases id <;> rfl
  | cons frame frames ih =>
      rw [List.flatMap_cons, sentMessages_append, ih, frameEffect]
      by_cases hdata : isDataFrame frame
      · rw [if_pos hdata, List.filter_cons_of_pos hdata]
        cases id <;> rfl
      · rw [if_neg hdata, List.filter_cons_of_neg hdata]
        by_cases hclose : frame.1 = 0x08
        · rw [if_pos hclose]
          cases id <;> rfl
        · rw [if_neg hclose]
          split <;> rfl

theorem opened_effect : opened (frames.flatMap (frameEffect id)) = [] := by
  apply List.filterMap_eq_nil_iff.mpr
  intro c hc
  obtain ⟨frame, -, hc⟩ := List.mem_flatMap.mp hc
  unfold frameEffect at hc
  split at hc
  · obtain ⟨t, -, rfl⟩ := List.mem_map.mp hc
    rfl
  · split at hc
    · obtain ⟨t, -, rfl⟩ := List.mem_map.mp hc
      rfl
    · split at hc
      · cases List.mem_singleton.mp hc
        rfl
      · cases hc

/-- The client has been sent a Close. -/
def CloseSent (calls : List Call) : Prop :=
  ∃ payload, .setDownstreamData 0 0 (encodeWsFrame 0x08 payload) ∈ calls

theorem CloseSent.append {calls : List Call} (h : CloseSent calls) (more : List Call) :
    CloseSent (calls ++ more) := by
  obtain ⟨payload, hmem⟩ := h
  exact ⟨payload, List.mem_append_left _ hmem⟩

/-- What the filter writes to the client for a frame is a Pong. -/
theorem not_closeSent_effect {calls : List Call} (h : ¬ CloseSent calls) :
    ¬ CloseSent (calls ++ frames.flatMap (frameEffect id)) := by
  rintro ⟨payload, hmem⟩
  obtain hmem | hmem := List.mem_append.mp hmem
  · exact h ⟨payload, hmem⟩
  · obtain ⟨frame, -, hc⟩ := List.mem_flatMap.mp hmem
    unfold frameEffect at hc
    split at hc
    · obtain ⟨t, -, hc⟩ := List.mem_map.mp hc
      cases hc
    · split at hc
      · obtain ⟨t, -, hc⟩ := List.mem_map.mp hc
        cases hc
      · split at hc
        · have hbytes := (Call.setDownstreamData.inj (List.mem_singleton.mp hc)).2.2
          exact absurd (List.cons.inj hbytes).1 (by decide)
        · cases hc

end Effects

theorem sentMessages_ordinary {new : List Call} (h : ∀ c ∈ new, c.Ordinary none) :
    sentMessages new = [] := by
  apply List.filterMap_eq_nil_iff.mpr
  intro c hc
  cases c with
  | sendGrpcStreamMessage => cases h _ hc
  | openGrpcStream => rfl
  | closeGrpcStream => rfl
  | setDownstreamData => rfl

/-- The messages that one callback sends. -/
theorem step_sent (env : Env) {s : WsBridgeStream} (hlive : s.trap = none) (e : Event) :
    sentMessages (step env s e).calls = sentMessages s.calls ++
      if s.grpcStreamId.isSome then
        ((parsedFrames env.bits s e).filter isDataFrame).map dataMessage
      else [] := by
  have hquiet : ∀ new, (∀ c ∈ new, c.Ordinary none) →
      sentMessages (s.calls ++ new) = sentMessages s.calls := by
    intro new hnew
    rw [sentMessages_append, sentMessages_ordinary hnew, List.append_nil]
  -- no other callback parses frames
  have hnone : sentMessages s.calls ++ (if s.grpcStreamId.isSome then
      (([] : List (UInt8 × Bytes)).filter isDataFrame).map dataMessage else []) =
        sentMessages s.calls := by
    rw [List.filter_nil, List.map_nil, ite_self, List.append_nil]
  cases e with
  | downstreamData chunk =>
      obtain ⟨hcalls, -⟩ := downstream_effected env hlive chunk
      rw [hcalls, sentMessages_append, sentMessages_effect]
  | upstreamData data =>
      refine Eq.trans ?_ hnone.symm
      obtain hsame | ⟨initialMetadata, -, -, hcalls, -⟩ := upstream_cases env hlive data
      · rw [hsame]
      · rw [hcalls, sentMessages_append]
        exact List.append_nil _
  | grpcStreamInitialMetadata t =>
      refine Eq.trans ?_ hnone.symm
      simp only [step, hlive, Option.isSome_none, Bool.false_eq_true, if_false,
        onGrpcStreamInitialMetadata]
  | grpcStreamMessage t data =>
      refine Eq.trans ?_ hnone.symm
      obtain ⟨new, hnew, hcalls, -⟩ := message_keeps env s t data
      rw [hcalls]
      exact hquiet new hnew
  | grpcStreamClose t statusCode =>
      refine Eq.trans ?_ hnone.symm
      simp only [step, hlive, Option.isSome_none, Bool.false_eq_true, if_false]
      refine hquiet [_] ?_
      intro c hc
      cases List.mem_singleton.mp hc
      trivial

/-! ## The handle accounted for -/

/-- None of the frames parsed so far is a Close. -/
def Unclosed (env : Env) (s : WsBridgeStream) : List Event → Prop :=
  AtEach fun before e => (parsedFrames env.bits (run env s before) e).any (·.1 == 0x08) = false

/-- What ties the handle to the answer to the first `open_grpc_stream`. -/
structure Accounted (env : Env) (first : WsBridgeStream) (events : List Event)
    (s : WsBridgeStream) : Prop where
  waiting : s.state ≠ .active → s.calls = [] ∧ s.grpcStreamId = none
  opened : s.state = .active → opened s.calls = (env.openGrpcStream []).toList
  unheld : s.state = .active → s.grpcStreamId = none →
    env.openGrpcStream [] = none ∨ CloseSent s.calls ∨ ¬ Unclosed env first events
  failed : env.openGrpcStream [] = none → s.grpcStreamId = none ∧ ¬ CloseSent s.calls

namespace Accounted

variable {env : Env} {first s : WsBridgeStream} {events : List Event}

/-- The callbacks of a stream come in the active state, after an open that succeeded. -/
theorem of_token (h : Accounted env first events s) {t : UInt32} (ht : t ∈ Wasm.opened s.calls) :
    s.state = .active ∧ env.openGrpcStream [] = some t := by
  have hstate : s.state = .active := by
    by_contra hwaiting
    rw [(h.waiting hwaiting).1] at ht
    cases ht
  rw [h.opened hstate] at ht
  exact ⟨hstate, Option.mem_toList.mp ht⟩

/-- Bytes from the client. -/
theorem downstream (h : Accounted env first events (run env first events))
    (hlive : (run env first events).trap = none) (chunk : Option Bytes) :
    Accounted env first (events ++ [.downstreamData chunk])
      (step env (run env first events) (.downstreamData chunk)) := by
  obtain ⟨hcalls, hhandle⟩ := downstream_effected env hlive chunk
  obtain ⟨-, -, -, hstate⟩ := downstream_handled env hlive chunk
  constructor
  · intro hwaiting
    obtain ⟨hempty, hnone⟩ := h.waiting (mt hstate.mpr hwaiting)
    obtain ⟨hsame, hkept, -⟩ := downstream_waiting env (mt hstate.mpr hwaiting) chunk
    exact ⟨hsame.trans hempty, hkept.trans hnone⟩
  · intro hactive
    rw [hcalls, opened_append, opened_effect, List.append_nil]
    exact h.opened (hstate.mp hactive)
  · intro hactive hnone
    rw [hhandle] at hnone
    by_cases hclose : (parsedFrames env.bits (run env first events)
        (.downstreamData chunk)).any (·.1 == 0x08)
    · refine .inr (.inr fun hunclosed => ?_)
      rw [(atEach_concat.mp hunclosed).2] at hclose
      cases hclose
    · rw [if_neg hclose] at hnone
      obtain hfailed | hsent | hclosed := h.unheld (hstate.mp hactive) hnone
      · exact .inl hfailed
      · rw [hcalls]
        exact .inr (.inl (hsent.append _))
      · exact .inr (.inr fun hunclosed => hclosed (atEach_concat.mp hunclosed).1)
  · intro hfailed
    obtain ⟨hnone, hsent⟩ := h.failed hfailed
    rw [hhandle, hcalls, hnone, ite_self]
    exact ⟨rfl, not_closeSent_effect none _ hsent⟩

/-- A callback that changes nothing. -/
theorem concat (h : Accounted env first events s) (e : Event) :
    Accounted env first (events ++ [e]) s where
  waiting := h.waiting
  opened := h.opened
  unheld hactive hnone := by
    obtain hfailed | hsent | hclosed := h.unheld hactive hnone
    · exact .inl hfailed
    · exact .inr (.inl hsent)
    · exact .inr (.inr fun hunclosed => hclosed (atEach_concat.mp hunclosed).1)
  failed := h.failed

/-- A callback of the stream, which there is then: the handle is kept or set, or the
client is sent a Close. -/
theorem stream (h : Accounted env first events s) {t : UInt32} (ht : t ∈ Wasm.opened s.calls)
    {s' : WsBridgeStream} {new : List Call} (e : Event) (hstate : s'.state = s.state)
    (hcalls : s'.calls = s.calls ++ new) (hnew : Wasm.opened new = [])
    (hover : s'.grpcStreamId = none → s.grpcStreamId = none ∨ CloseSent s'.calls) :
    Accounted env first (events ++ [e]) s' := by
  obtain ⟨hactive, hopen⟩ := h.of_token ht
  constructor
  · intro hwaiting
    exact absurd (hstate.trans hactive) hwaiting
  · intro _
    rw [hcalls, opened_append, hnew, List.append_nil]
    exact h.opened hactive
  · intro _ hnone
    obtain hbefore | hsent := hover hnone
    · obtain hfailed | hsent | hclosed := (h.concat e).unheld hactive hbefore
      · exact .inl hfailed
      · rw [hcalls]
        exact .inr (.inl (hsent.append new))
      · exact .inr (.inr hclosed)
    · exact .inr (.inl hsent)
  · intro hfailed
    rw [hopen] at hfailed
    cases hfailed

/-- One callback. -/
theorem step (h : Accounted env first events (run env first events))
    (hlive : (run env first events).trap = none) {e : Event}
    (htoken : ∀ t, e.token? = some t → t ∈ Wasm.opened (run env first events).calls) :
    Accounted env first (events ++ [e]) (Wasm.step env (run env first events) e) := by
  cases e with
  | downstreamData chunk => exact h.downstream hlive chunk
  | upstreamData data =>
      obtain hsame | ⟨initialMetadata, hwaiting, hactive, hcalls, hid⟩ :=
        upstream_cases env hlive data
      · rw [hsame]
        exact h.concat _
      · obtain ⟨hempty, hnone⟩ := h.waiting (by rw [hwaiting]; exact State.noConfusion)
        rw [hempty] at hcalls hid
        rw [hnone, Option.or_none] at hid
        constructor
        · intro hnot
          exact absurd hactive hnot
        · intro _
          rw [hcalls]
          cases env.openGrpcStream [] <;> rfl
        · intro _ hfailed
          exact .inl (hid.symm.trans hfailed)
        · intro hfailed
          refine ⟨hid.trans hfailed, ?_⟩
          rintro ⟨payload, hmem⟩
          rw [hcalls] at hmem
          cases List.mem_singleton.mp hmem
  | grpcStreamInitialMetadata t =>
      have hstep : Wasm.step env (run env first events) (.grpcStreamInitialMetadata t) =
          { run env first events with grpcStreamId := some t } := by
        simp only [Wasm.step, hlive, Option.isSome_none, Bool.false_eq_true, if_false,
          onGrpcStreamInitialMetadata]
      have hcalls : (Wasm.step env (run env first events) (.grpcStreamInitialMetadata t)).calls =
          (run env first events).calls ++ [] := by
        rw [hstep, List.append_nil]
      refine h.stream (htoken t rfl) _ ?_ hcalls rfl ?_
      · rw [hstep]
      · intro hnone
        rw [hstep] at hnone
        cases hnone
  | grpcStreamMessage t data =>
      obtain ⟨new, hnew, hcalls, hid, hstate⟩ := message_keeps env (run env first events) t data
      apply h.stream (htoken t rfl) _ hstate hcalls (opened_ordinary hnew)
      intro hnone
      exact .inl (hid.symm.trans hnone)
  | grpcStreamClose t statusCode =>
      have hstep : Wasm.step env (run env first events) (.grpcStreamClose t statusCode) =
          onGrpcStreamClose (run env first events) := by
        simp only [Wasm.step, hlive, Option.isSome_none, Bool.false_eq_true, if_false]
      have hcalls : (onGrpcStreamClose (run env first events)).calls =
          (run env first events).calls ++
            [.setDownstreamData 0 0 (encodeWsFrame 0x08 [0x03, 0xE8])] := rfl
      rw [hstep]
      refine h.stream (htoken t rfl) _ rfl hcalls rfl ?_
      intro _
      rw [hcalls]
      exact .inr ⟨[0x03, 0xE8], List.mem_append_right _ (List.mem_singleton_self _)⟩

end Accounted

/-- A whole run. -/
theorem run_accounted {env : Env} {first : WsBridgeStream} (hnew : Accounted env first [] first)
    {events : List Event} (hhost : HostRun env first events) :
    Accounted env first events (run env first events) := by
  induction events using List.reverseRecOn with
  | nil => exact hnew
  | append_singleton before e ih =>
      obtain ⟨hhost, hlive, htoken⟩ := atEach_concat.mp hhost
      rw [run_concat]
      exact (ih hhost).step hlive htoken

/-- A new filter. -/
theorem accounted_new (env : Env) (grpcCluster grpcService : Str) :
    Accounted env { grpcCluster, grpcService } [] { grpcCluster, grpcService } where
  waiting _ := ⟨rfl, rfl⟩
  opened h := State.noConfusion h
  unheld h := State.noConfusion h
  failed _ := by
    refine ⟨rfl, ?_⟩
    rintro ⟨payload, hmem⟩
    cases hmem

/-! ## No silent loss -/

/-- Before the client's Close, every data frame that a callback parses is sent on the
stream, or by the end of the callback the client has been sent a Close. -/
def NoSilentLoss (env : Env) (s : WsBridgeStream) : List Event → Prop :=
  AtEach fun before e => Unclosed env s before →
    sentMessages (run env s (before ++ [e])).calls = sentMessages (run env s before).calls ++
        ((parsedFrames env.bits (run env s before) e).filter isDataFrame).map dataMessage ∨
      CloseSent (run env s (before ++ [e])).calls

/-- The client sends no data frame before its Close. -/
def NoDataFrame (env : Env) (s : WsBridgeStream) : List Event → Prop :=
  AtEach fun before e => Unclosed env s before →
    (parsedFrames env.bits (run env s before) e).filter isDataFrame = []

/-- With a stream, or once the client has been told, no frame is lost. -/
theorem Accounted.sent_or_closed {env : Env} {first : WsBridgeStream} {before : List Event}
    (h : Accounted env first before (run env first before))
    (hlive : (run env first before).trap = none) (hunclosed : Unclosed env first before)
    (e : Event) (hquiet : env.openGrpcStream [] = none →
      (parsedFrames env.bits (run env first before) e).filter isDataFrame = []) :
    sentMessages (run env first (before ++ [e])).calls =
      sentMessages (run env first before).calls ++
        ((parsedFrames env.bits (run env first before) e).filter isDataFrame).map dataMessage ∨
      CloseSent (run env first (before ++ [e])).calls := by
  have hsent := step_sent env hlive e
  rw [run_concat]
  cases hid : (run env first before).grpcStreamId with
  | some t =>
      rw [hid] at hsent
      exact .inl hsent
  | none =>
      rw [hid] at hsent
      -- nothing is sent, so only a callback without data frames is harmless
      have hharmless : (parsedFrames env.bits (run env first before) e).filter isDataFrame = [] →
          sentMessages (Wasm.step env (run env first before) e).calls =
            sentMessages (run env first before).calls ++ ((parsedFrames env.bits
              (run env first before) e).filter isDataFrame).map dataMessage := by
        intro hempty
        rw [hsent, hempty]
        rfl
      by_cases hstate : (run env first before).state = .active
      · obtain hfailed | hclosed | hclient := h.unheld hstate hid
        · exact .inl (hharmless (hquiet hfailed))
        · cases e with
          | downstreamData chunk =>
              rw [(downstream_effected env hlive chunk).calls]
              exact .inr (hclosed.append _)
          | upstreamData data => exact .inl (hharmless rfl)
          | grpcStreamInitialMetadata t => exact .inl (hharmless rfl)
          | grpcStreamMessage t data => exact .inl (hharmless rfl)
          | grpcStreamClose t statusCode => exact .inl (hharmless rfl)
        · exact absurd hunclosed hclient
      · apply Or.inl
        apply hharmless
        rw [parsedFrames_waiting hstate]
        rfl

/-- No message of the client is lost in silence in exactly the runs where the open of
the stream succeeds or the client sends none. -/
theorem noSilentLoss_iff (env : Env) (grpcCluster grpcService : Str) (events : List Event)
    (hhost : HostRun env { grpcCluster, grpcService } events) :
    NoSilentLoss env { grpcCluster, grpcService } events ↔
      (env.openGrpcStream []).isSome ∨ NoDataFrame env { grpcCluster, grpcService } events := by
  have hnew := accounted_new env grpcCluster grpcService
  generalize ({ grpcCluster, grpcService } : WsBridgeStream) = first at hhost hnew ⊢
  constructor
  · intro hloss
    refine or_iff_not_imp_left.mpr fun hopen => ?_
    have hfailed : env.openGrpcStream [] = none := Option.not_isSome_iff_eq_none.mp hopen
    intro before e after hsplit hunclosed
    obtain ⟨hlive, -⟩ := hhost before e after hsplit
    have hlost := hloss before e after hsplit hunclosed
    rw [hsplit, List.append_cons] at hhost
    have hafter := run_accounted hnew hhost.of_append
    have hnone := (run_accounted hnew hhost.of_append.of_append).failed hfailed
    obtain hsent | hclosed := hlost
    · have hnothing := step_sent env hlive e
      rw [← run_concat, hnone.1, hsent] at hnothing
      exact List.map_eq_nil_iff.mp (List.append_cancel_left hnothing)
    · exact absurd hclosed (hafter.failed hfailed).2
  · intro hcondition before e after hsplit hunclosed
    obtain ⟨hlive, -⟩ := hhost before e after hsplit
    rw [hsplit] at hhost
    apply (run_accounted hnew hhost.of_append).sent_or_closed hlive hunclosed e
    intro hfailed
    obtain hopen | hquiet := hcondition
    · rw [hfailed] at hopen
      cases hopen
    · exact hquiet before e after hsplit hunclosed

/-- A callback that is not of a stream. -/
theorem hostRun_silent {env : Env} {s : WsBridgeStream} (events : List Event) {e : Event}
    (h : HostRun env s events) (hlive : (run env s events).trap = none) (he : e.token? = none) :
    HostRun env s (events ++ [e]) := by
  apply AtEach.concat events h
  refine ⟨hlive, ?_⟩
  intro t ht
  rw [he] at ht
  cases ht

def upgradeRequest : Event := .downstreamData (some (utf8Encode "GET / HTTP/1.1\r\n\r\n".toList))

def upgradeResponse : Event := .upstreamData (some (utf8Encode "HTTP/1.1 101\r\n\r\n".toList))

/-- A masked text frame with the payload `A`. -/
def maskedText : Event := .downstreamData (some [0x81, 0x81, 0x01, 0x02, 0x03, 0x04, 0x40])

theorem hostRun_text (env : Env) (s : WsBridgeStream)
    (hrequest : (run env s [upgradeRequest]).trap = none)
    (hresponse : (run env s [upgradeRequest, upgradeResponse]).trap = none)
    (hlive : s.trap = none) :
    HostRun env s [upgradeRequest, upgradeResponse, maskedText] :=
  hostRun_silent [_, _] (hostRun_silent [_] (hostRun_silent [] atEach_nil hlive rfl) hrequest rfl)
    hresponse rfl

theorem noSilentLoss_iff_text :
    NoSilentLoss ⟨32, .ascii, fun _ => some 7⟩ { grpcCluster := [], grpcService := [] }
      [upgradeRequest, upgradeResponse, maskedText] :=
  (noSilentLoss_iff ⟨32, .ascii, fun _ => some 7⟩ [] [] _
    (hostRun_text _ _ (by decide) (by decide) rfl)).mpr (.inl rfl)

/-- The open fails and the client sends a text frame: the filter is active, its only call
is the failed open, and the message is gone. -/
theorem failed_open_loses :
    let env : Env := ⟨32, .ascii, fun _ => none⟩
    let events : List Event := [upgradeRequest, upgradeResponse, maskedText]
    HostRun env { grpcCluster := [], grpcService := [] } events ∧
      (run env { grpcCluster := [], grpcService := [] } events).state = .active ∧
      (run env { grpcCluster := [], grpcService := [] } events).calls =
        [.openGrpcStream [] [] "Connect".toList
          [(":method".toList, utf8Encode "GET".toList), (":path".toList, utf8Encode "/".toList)]
          none] ∧
      ¬ NoSilentLoss env { grpcCluster := [], grpcService := [] } events := by
  intro env events
  have hcalls : (run env { grpcCluster := [], grpcService := [] } events).calls =
      [.openGrpcStream [] [] "Connect".toList
        [(":method".toList, utf8Encode "GET".toList), (":path".toList, utf8Encode "/".toList)]
        none] := by decide
  refine ⟨hostRun_text _ _ (by decide) (by decide) rfl, by decide, hcalls, ?_⟩
  intro hloss
  have hunclosed : Unclosed env { grpcCluster := [], grpcService := [] }
      [upgradeRequest, upgradeResponse] :=
    AtEach.concat [_] (AtEach.concat [] atEach_nil (by decide)) (by decide)
  obtain hsent | ⟨payload, hmem⟩ :=
    hloss [upgradeRequest, upgradeResponse] maskedText [] rfl hunclosed
  · revert hsent
    decide
  · have hlast : .setDownstreamData 0 0 (encodeWsFrame 0x08 payload) ∈
        (run env { grpcCluster := [], grpcService := [] } events).calls := hmem
    rw [hcalls] at hlast
    cases List.mem_singleton.mp hlast

end Grpcgi.Wasm
