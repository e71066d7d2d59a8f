import Mathlib.Data.List.Induction
import Grpcgi.Wasm.Relay

/-!
# The gRPC handle of the WASM filter

`grpc_stream_id` over whole runs. Four callbacks write it, and three of them
check nothing. It names an open stream as long as no initial metadata arrives for
a stream that has been closed; that callback stores its token whatever has
happened to the stream before.

The invariant (`Held`) ties the handle to the calls made and to the callbacks
received: the filter opens at most one stream, the handle names it or nothing,
and in the active state a handle that names nothing means that the stream is over.
-/

namespace Grpcgi.Wasm

open Incremental (Decoder)

/-! ## Streams and the callbacks for them -/

/-- The tokens that `open_grpc_stream` has returned. -/
def opened (calls : List Call) : List UInt32 :=
  calls.filterMap fun
    | .openGrpcStream _ _ _ _ result => result
    | _ => none

/-- The stream that a call writes to or closes. -/
def Call.uses : Call → Option UInt32
  | .sendGrpcStreamMessage id _ _ => some id
  | .closeGrpcStream id => some id
  | _ => none

def Call.closes : Call → Bool
  | .closeGrpcStream _ => true
  | _ => false

/-- The calls that use a stream. -/
def streamUses (calls : List Call) : List Call := calls.filter fun c => c.uses.isSome

/-- The token of a gRPC callback. -/
def Event.token? : Event → Option UInt32
  | .grpcStreamInitialMetadata tokenId => some tokenId
  | .grpcStreamMessage tokenId _ => some tokenId
  | .grpcStreamClose tokenId _ => some tokenId
  | _ => none

/-- A stream that `open_grpc_stream` returned and that has neither been closed by
the filter nor reported closed. -/
structure StreamOpen (events : List Event) (s : WsBridgeStream) (t : UInt32) : Prop where
  opened : t ∈ opened s.calls
  not_closed : .closeGrpcStream t ∉ s.calls
  not_reported : ∀ statusCode, .grpcStreamClose t statusCode ∉ events

/-- A property of every callback of a run and of the callbacks before it. -/
def AtEach (p : List Event → Event → Prop) (events : List Event) : Prop :=
  ∀ before e after, events = before ++ e :: after → p before e

theorem atEach_nil {p : List Event → Event → Prop} : AtEach p [] := by
  intro before e after hsplit
  exact absurd hsplit.symm (by simp)

theorem atEach_concat {p : List Event → Event → Prop} {events : List Event} {e : Event} :
    AtEach p (events ++ [e]) ↔ AtEach p events ∧ p events e := by
  constructor
  · intro h
    refine ⟨?_, h events e [] rfl⟩
    intro before e' after hsplit
    apply h before e' (after ++ [e])
    rw [hsplit, List.append_assoc, List.cons_append]
  · rintro ⟨h, he⟩ before e' after hsplit
    obtain rfl | ⟨after, last, rfl⟩ := List.eq_nil_or_concat after
    · obtain ⟨rfl, hlast⟩ := List.append_inj' hsplit rfl
      cases hlast
      exact he
    · rw [List.concat_eq_append, ← List.cons_append, ← List.append_assoc] at hsplit
      exact h before e' after (List.append_inj' hsplit rfl).1

theorem AtEach.concat {p : List Event → Event → Prop} (events : List Event) {e : Event}
    (h : AtEach p events) (he : p events e) : AtEach p (events ++ [e]) := atEach_concat.mpr ⟨h, he⟩

section Runs

variable (env : Env) (s : WsBridgeStream)

/-- The callbacks of a host: none for an instance that has trapped, and gRPC
callbacks only for streams that it has opened. -/
def HostRun : List Event → Prop :=
  AtEach fun before e => (run env s before).trap = none ∧
    ∀ t, e.token? = some t → t ∈ opened (run env s before).calls

/-- Initial metadata arrives only for an open stream. -/
def MetadataOnTime : List Event → Prop :=
  AtEach fun before e => ∀ t, e = .grpcStreamInitialMetadata t →
    StreamOpen before (run env s before) t

theorem run_concat (events : List Event) (e : Event) :
    run env s (events ++ [e]) = step env (run env s events) e := by
  simp only [run, List.foldl_append, List.foldl_cons, List.foldl_nil]

end Runs

/-! ## What the callbacks do to the handle -/

/-- The calls of frames on the handle `id`: messages on the stream, Pongs. -/
def Call.Ordinary (id : Option UInt32) : Call → Prop
  | .sendGrpcStreamMessage t _ _ => id = some t
  | .setDownstreamData _ _ _ => True
  | _ => False

/-- The calls of a client's chunk and the handle after it: the chunk ends with a
Close on an open stream, or the handle stays. -/
inductive Handled (id : Option UInt32) : List Call → Option UInt32 → Prop where
  | running (new : List Call) (ordinary : ∀ c ∈ new, c.Ordinary id) : Handled id new id
  | closed (t : UInt32) (new : List Call) (open_id : id = some t)
      (ordinary : ∀ c ∈ new, c.Ordinary id) : Handled id (new ++ [.closeGrpcStream t]) none

/-- One frame adds a call of the handle, or closes the stream and ends the loop. -/
theorem dispatchFrame_handled (s : WsBridgeStream) (frame : UInt8 × Bytes) :
    (∃ new, (∀ c ∈ new, c.Ordinary s.grpcStreamId) ∧
      (dispatchFrame s frame).1.calls = s.calls ++ new ∧
      (dispatchFrame s frame).1.grpcStreamId = s.grpcStreamId ∧
      ((dispatchFrame s frame).2 = false → s.grpcStreamId = none)) ∨
    ∃ t, s.grpcStreamId = some t ∧ (dispatchFrame s frame).2 = false ∧
      (dispatchFrame s frame).1.calls = s.calls ++ [.closeGrpcStream t] ∧
      (dispatchFrame s frame).1.grpcStreamId = none := by
  obtain ⟨opcode, payload⟩ := frame
  simp only [dispatchFrame, WsBridgeStream.emit]
  split_ifs
  · cases hid : s.grpcStreamId with
    | none => exact .inl ⟨[], by simp, by simp, by simp [hid], by simp⟩
    | some t => exact .inl ⟨[_], by simp [Call.Ordinary], rfl, by simp, by simp⟩
  · cases hid : s.grpcStreamId with
    | none => exact .inl ⟨[], by simp, by simp, by simp [hid], by simp⟩
    | some t => exact .inr ⟨t, rfl, rfl, rfl, rfl⟩
  · exact .inl ⟨[_], by simp [Call.Ordinary], rfl, rfl, by simp⟩
  · exact .inl ⟨[], by simp, by simp, rfl, by simp⟩

/-- A Close frame is the first thing in these bytes that ends the loop. -/
def ReachesClose (bits : Nat) (bs : Bytes) : Prop :=
  ∃ r, (wsDecoder bits).scan (fun (_ : Unit) frame => ((), frame.1 != 0x08)) () bs =
    ((), .stopped r)

theorem ReachesClose.stopped {bits : Nat} {bs : Bytes} (h : ReachesClose bits bs)
    (s : WsBridgeStream) : ∃ t r, (wsDecoder bits).scan dispatchFrame s bs = (t, .stopped r) := by
  have hrelated : Decoder.Related (fun _ _ => True) (fun _ _ => True)
      ((wsDecoder bits).scan dispatchFrame s bs)
      ((wsDecoder bits).scan (fun (_ : Unit) frame => ((), frame.1 != 0x08)) () bs) := by
    apply Decoder.scan_related (wsDecoder bits) _ trivial
    intro u _ frame _
    exact ⟨(dispatchFrame u frame).1, (), (dispatchFrame u frame).2, rfl,
      by rw [dispatchFrame_go], fun _ => trivial, fun _ => trivial⟩
  obtain ⟨r, hr⟩ := h
  rw [hr] at hrelated
  generalize (wsDecoder bits).scan dispatchFrame s bs = real at hrelated ⊢
  cases hrelated
  exact ⟨_, _, rfl⟩

/-- The loop over some bytes. -/
theorem scan_handled (bits : Nat) (s : WsBridgeStream) (bs : Bytes) :
    ∃ new, (leave ((wsDecoder bits).scan dispatchFrame s bs)).calls = s.calls ++ new ∧
      Handled s.grpcStreamId new (leave ((wsDecoder bits).scan dispatchFrame s bs)).grpcStreamId ∧
      (ReachesClose bits bs →
        (leave ((wsDecoder bits).scan dispatchFrame s bs)).grpcStreamId = none) := by
  have hsettled := Decoder.scan_settled (wsDecoder bits) dispatchFrame
    (P := fun u => ∃ new, (∀ c ∈ new, c.Ordinary s.grpcStreamId) ∧ u.calls = s.calls ++ new ∧
      u.grpcStreamId = s.grpcStreamId)
    (Q := fun u => ∃ new, u.calls = s.calls ++ new ∧
      Handled s.grpcStreamId new u.grpcStreamId ∧ u.grpcStreamId = none)
    (by
      rintro u frame ⟨new, hnew, hcalls, hid⟩
      obtain ⟨more, hmore, hcalls', hid', hstop⟩ | ⟨t, ht, hgo, hcalls', hid'⟩ :=
        dispatchFrame_handled u frame
      · rw [hid] at hmore hid' hstop
        have hall : ∀ c ∈ new ++ more, c.Ordinary s.grpcStreamId := by
          intro c hc
          obtain hc | hc := List.mem_append.mp hc
          · exact hnew c hc
          · exact hmore c hc
        have hsofar : (dispatchFrame u frame).1.calls = s.calls ++ (new ++ more) := by
          rw [hcalls', hcalls, List.append_assoc]
        refine ⟨fun _ => ⟨new ++ more, hall, hsofar, hid'⟩,
          fun hgo => ⟨new ++ more, hsofar, ?_, ?_⟩⟩
        · rw [hid']
          exact .running _ hall
        · rw [hid', hstop hgo]
      · refine ⟨fun htrue => absurd (htrue.symm.trans hgo) (by decide), fun _ => ?_⟩
        refine ⟨new ++ [.closeGrpcStream t], ?_, ?_, hid'⟩
        · rw [hcalls', hcalls, List.append_assoc]
        · rw [hid']
          exact .closed t new (hid ▸ ht) hnew)
    ⟨[], by simp, by simp, rfl⟩ bs
  have hnone : ReachesClose bits bs →
      ∃ t r, (wsDecoder bits).scan dispatchFrame s bs = (t, .stopped r) := fun h => h.stopped s
  generalize (wsDecoder bits).scan dispatchFrame s bs = real at hsettled hnone ⊢
  cases hsettled with
  | rest hu =>
      obtain ⟨new, hnew, hcalls, hid⟩ := hu
      refine ⟨new, hcalls, ?_, fun hclose => ?_⟩
      · simp only [leave, hid]
        exact .running new hnew
      · obtain ⟨t, r, ht⟩ := hnone hclose
        cases ht
  | stopped hu =>
      obtain ⟨new, hcalls, hhandled, hid⟩ := hu
      exact ⟨new, hcalls, hhandled, fun _ => hid⟩
  | fault hu _ =>
      obtain ⟨new, hnew, hcalls, hid⟩ := hu
      refine ⟨new, hcalls, ?_, fun hclose => ?_⟩
      · simp only [leave, hid]
        exact .running new hnew
      · obtain ⟨t, r, ht⟩ := hnone hclose
        cases ht

/-- Before the upgrade a chunk is only read for the request. -/
theorem downstream_waiting (env : Env) {s : WsBridgeStream} (hstate : s.state ≠ .active)
    (chunk : Option Bytes) :
    (step env s (.downstreamData chunk)).calls = s.calls ∧
      (step env s (.downstreamData chunk)).grpcStreamId = s.grpcStreamId ∧
      (step env s (.downstreamData chunk)).state ≠ .active := by
  simp only [step]
  split
  · exact ⟨rfl, rfl, hstate⟩
  · cases hs : s.state with
    | active => exact absurd hs hstate
    | awaitingUpgradeResponse =>
        simp only [onDownstreamData, hs]
        exact ⟨trivial, trivial, State.noConfusion⟩
    | awaitingUpgradeRequest =>
        simp only [onDownstreamData, hs]
        cases chunk with
        | none => exact ⟨rfl, rfl, hstate⟩
        | some chunk =>
            simp only
            cases findSubsequence crlfCrlf (s.downstreamBuf ++ chunk) with
            | none => exact ⟨rfl, rfl, State.noConfusion⟩
            | some stop => exact ⟨rfl, rfl, State.noConfusion⟩

/-- One chunk from the client. -/
theorem downstream_handled (env : Env) {s : WsBridgeStream} (hlive : s.trap = none)
    (chunk : Option Bytes) :
    ∃ new, (step env s (.downstreamData chunk)).calls = s.calls ++ new ∧
      Handled s.grpcStreamId new (step env s (.downstreamData chunk)).grpcStreamId ∧
      ((step env s (.downstreamData chunk)).state = .active ↔ s.state = .active) := by
  have hnone : s.calls = s.calls ++ [] := (List.append_nil _).symm
  by_cases hstate : s.state = .active
  · cases chunk with
    | none =>
        have hsame : step env s (.downstreamData none) = s := by
          simp only [step, onDownstreamData, hstate, ite_self]
        rw [hsame]
        exact ⟨[], hnone, .running [] (by simp), Iff.rfl⟩
    | some chunk =>
        obtain ⟨new, hcalls, hhandled, -⟩ := scan_handled env.bits
          { s with downstreamBuf := [] } (s.downstreamBuf ++ chunk)
        have hactive : (step env s (.downstreamData (some chunk))).state = .active :=
          step_stays_active hstate chunk
        rw [step_active hstate hlive] at hactive ⊢
        exact ⟨new, hcalls, hhandled, iff_of_true hactive hstate⟩
  · obtain ⟨hcalls, hid, hwaiting⟩ := downstream_waiting env hstate chunk
    rw [hcalls, hid]
    exact ⟨[], hnone, .running [] (by simp), iff_of_false hwaiting hstate⟩

/-- Upstream bytes open the stream, once, or do nothing. -/
theorem upstream_cases (env : Env) {s : WsBridgeStream} (hlive : s.trap = none)
    (data : Option Bytes) :
    step env s (.upstreamData data) = s ∨
    ∃ initialMetadata,
      s.state = .awaitingUpgradeResponse ∧
      (step env s (.upstreamData data)).state = .active ∧
      (step env s (.upstreamData data)).calls = s.calls ++ [.openGrpcStream s.grpcCluster
        s.grpcService "Connect".toList initialMetadata (env.openGrpcStream s.calls)] ∧
      (step env s (.upstreamData data)).grpcStreamId =
        (env.openGrpcStream s.calls).or s.grpcStreamId := by
  simp only [step, hlive, Option.isSome_none, Bool.false_eq_true, if_false, onUpstreamData]
  cases hs : s.state with
  | awaitingUpgradeRequest => exact .inl rfl
  | active => exact .inl rfl
  | awaitingUpgradeResponse =>
      cases data with
      | none => exact .inl rfl
      | some data =>
          simp only
          split
          · right
            cases env.openGrpcStream s.calls with
            | none => exact ⟨_, trivial, rfl, rfl, rfl⟩
            | some tokenId => exact ⟨_, trivial, rfl, rfl, rfl⟩
          · exact .inl rfl

/-- A message from the server only adds a write to the client. -/
theorem message_keeps (env : Env) (s : WsBridgeStream) (tokenId : UInt32) (data : Option Bytes) :
    ∃ new, (∀ c ∈ new, c.Ordinary none) ∧
      (step env s (.grpcStreamMessage tokenId data)).calls = s.calls ++ new ∧
      (step env s (.grpcStreamMessage tokenId data)).grpcStreamId = s.grpcStreamId ∧
      (step env s (.grpcStreamMessage tokenId data)).state = s.state := by
  have hnone : s.calls = s.calls ++ [] := (List.append_nil _).symm
  simp only [step]
  split
  · exact ⟨[], by simp, hnone, rfl, rfl⟩
  · cases data with
    | none => exact ⟨[], by simp, hnone, rfl, rfl⟩
    | some data =>
        simp only [onGrpcStreamMessage]
        cases decodeFrameProto env.bits data with
        | error e => exact ⟨[], by simp, hnone, rfl, rfl⟩
        | ok frame =>
            cases frame with
            | none => exact ⟨[], by simp, hnone, rfl, rfl⟩
            | some frame => exact ⟨[_], by simp [Call.Ordinary], rfl, rfl, rfl⟩

/-! ## The invariant -/

theorem opened_append (xs ys : List Call) : opened (xs ++ ys) = opened xs ++ opened ys :=
  List.filterMap_append

section Ordinary

variable {id : Option UInt32} {c : Call}

theorem Call.Ordinary.of_none (h : c.Ordinary none) : c.Ordinary id := by
  cases c with
  | setDownstreamData => trivial
  | sendGrpcStreamMessage => cases h
  | openGrpcStream => exact h
  | closeGrpcStream => exact h

theorem Call.Ordinary.uses_none (h : c.Ordinary none) : c.uses = none := by
  cases c with
  | setDownstreamData => rfl
  | sendGrpcStreamMessage => cases h
  | openGrpcStream => rfl
  | closeGrpcStream => cases h

theorem Call.Ordinary.closes_false (h : c.Ordinary id) : c.closes = false := by
  cases c with
  | closeGrpcStream => cases h
  | openGrpcStream => rfl
  | sendGrpcStreamMessage => rfl
  | setDownstreamData => rfl

theorem opened_ordinary {new : List Call} (h : ∀ c ∈ new, c.Ordinary id) : opened new = [] := by
  apply List.filterMap_eq_nil_iff.mpr
  intro c hc
  have hordinary := h c hc
  cases c with
  | openGrpcStream => cases hordinary
  | closeGrpcStream => rfl
  | sendGrpcStreamMessage => rfl
  | setDownstreamData => rfl

end Ordinary

/-- What ties the handle to the run so far. -/
structure Held (events : List Event) (s : WsBridgeStream) : Prop where
  fresh : s.state ≠ .active → s.grpcStreamId = none ∧ opened s.calls = []
  single : (opened s.calls).length ≤ 1
  safe : ∀ t, s.grpcStreamId = some t → StreamOpen events s t
  closed_opened : ∀ t, .closeGrpcStream t ∈ s.calls → t ∈ opened s.calls
  reported_opened : ∀ t statusCode, .grpcStreamClose t statusCode ∈ events → t ∈ opened s.calls
  spent : s.grpcStreamId = none → ∀ t, ¬ StreamOpen events s t
  ordered : s.calls.Pairwise fun a b => a.closes = true → b.uses = none

namespace Held

variable {events : List Event} {s s' : WsBridgeStream} {t u : UInt32}

/-- There is at most one token. -/
theorem token_eq (h : Held events s) (ht : t ∈ opened s.calls) (hu : u ∈ opened s.calls) :
    t = u := by
  obtain ⟨v, hv⟩ := List.length_eq_one_iff.mp
    (Nat.le_antisymm h.single (List.length_pos_of_mem ht))
  rw [hv, List.mem_singleton] at ht hu
  rw [ht, hu]

/-- While the handle names a stream, nothing has been closed. -/
theorem not_closes (h : Held events s) (hid : s.grpcStreamId = some t) :
    ∀ c ∈ s.calls, c.closes = false := by
  intro c hc
  cases c with
  | closeGrpcStream u =>
      have hopen := h.safe t hid
      have hu : u = t := h.token_eq (h.closed_opened u hc) hopen.opened
      exact absurd (hu ▸ hc) hopen.not_closed
  | openGrpcStream => rfl
  | sendGrpcStreamMessage => rfl
  | setDownstreamData => rfl

/-- The old calls do not forbid what the handle allows. -/
theorem ordered_append (h : Held events s) {new : List Call}
    (hnew : ∀ c ∈ new, c.Ordinary s.grpcStreamId) :
    (s.calls ++ new).Pairwise fun a b => a.closes = true → b.uses = none := by
  refine List.pairwise_append.mpr ⟨h.ordered, ?_, ?_⟩
  · apply List.pairwise_of_forall_mem_list
    intro a ha b hb hcloses
    rw [(hnew a ha).closes_false] at hcloses
    cases hcloses
  · intro a ha b hb hcloses
    cases hid : s.grpcStreamId with
    | none => exact (hid ▸ hnew b hb).uses_none
    | some t =>
        rw [h.not_closes hid a ha] at hcloses
        cases hcloses

theorem mem_events_concat {e : Event} (he : ∀ t statusCode, e ≠ .grpcStreamClose t statusCode)
    (t : UInt32) (statusCode : UInt32) :
    .grpcStreamClose t statusCode ∈ events ++ [e] ↔ .grpcStreamClose t statusCode ∈ events := by
  simp [(he t statusCode).symm]

/-- Calls of the handle, which stays. -/
theorem handled_running (h : Held events s) {e : Event} {new : List Call}
    (he : ∀ t statusCode, e ≠ .grpcStreamClose t statusCode)
    (hcalls : s'.calls = s.calls ++ new) (hnew : ∀ c ∈ new, c.Ordinary s.grpcStreamId)
    (hid : s'.grpcStreamId = s.grpcStreamId) (hstate : s'.state = .active ↔ s.state = .active) :
    Held (events ++ [e]) s' := by
  have hopened : opened s'.calls = opened s.calls := by
    rw [hcalls, opened_append, opened_ordinary hnew, List.append_nil]
  have hclosed : ∀ t, .closeGrpcStream t ∈ s'.calls ↔ .closeGrpcStream t ∈ s.calls := by
    intro t
    rw [hcalls, List.mem_append, or_iff_left]
    intro hmem
    exact hnew _ hmem
  have hopen : ∀ t, StreamOpen (events ++ [e]) s' t ↔ StreamOpen events s t := by
    intro t
    constructor
    · rintro ⟨ht, hc, hr⟩
      exact ⟨hopened ▸ ht, mt (hclosed t).mpr hc,
        fun c hm => hr c ((mem_events_concat he t c).mpr hm)⟩
    · rintro ⟨ht, hc, hr⟩
      exact ⟨hopened ▸ ht, mt (hclosed t).mp hc,
        fun c hm => hr c ((mem_events_concat he t c).mp hm)⟩
  constructor
  · intro hfresh
    rw [hid, hopened]
    exact h.fresh (mt hstate.mpr hfresh)
  · rw [hopened]
    exact h.single
  · intro t ht
    exact (hopen t).mpr (h.safe t (hid ▸ ht))
  · intro t ht
    rw [hopened]
    exact h.closed_opened t ((hclosed t).mp ht)
  · intro t c hc
    rw [hopened]
    exact h.reported_opened t c ((mem_events_concat he t c).mp hc)
  · intro hnone t ht
    exact h.spent (hid ▸ hnone) t ((hopen t).mp ht)
  · rw [hcalls]
    exact h.ordered_append hnew

/-- Calls of the handle, the last of which closes the stream. -/
theorem handled_closed (h : Held events s) {e : Event} {new : List Call}
    (he : ∀ t statusCode, e ≠ .grpcStreamClose t statusCode)
    (hcalls : s'.calls = s.calls ++ (new ++ [.closeGrpcStream t])) (hid : s.grpcStreamId = some t)
    (hnew : ∀ c ∈ new, c.Ordinary s.grpcStreamId) (hid' : s'.grpcStreamId = none)
    (hstate : s'.state = .active ↔ s.state = .active) : Held (events ++ [e]) s' := by
  have hactive : s.state = .active := by
    by_contra hfresh
    rw [(h.fresh hfresh).1] at hid
    cases hid
  have hopened : opened s'.calls = opened s.calls := by
    rw [hcalls, opened_append, opened_append, opened_ordinary hnew]
    exact List.append_nil _
  have ht := (h.safe t hid).opened
  constructor
  · intro hfresh
    exact absurd (hstate.mpr hactive) hfresh
  · rw [hopened]
    exact h.single
  · intro u hu
    rw [hid'] at hu
    cases hu
  · intro u hu
    rw [hopened]
    rw [hcalls, List.mem_append, List.mem_append] at hu
    obtain hu | hu | hu := hu
    · exact h.closed_opened u hu
    · exact absurd (hnew _ hu) id
    · cases List.mem_singleton.mp hu
      exact ht
  · intro u c hc
    rw [hopened]
    exact h.reported_opened u c ((mem_events_concat he u c).mp hc)
  · intro hnone u hu
    have hut : u = t := h.token_eq (hopened ▸ hu.opened) ht
    apply hu.not_closed
    rw [hut, hcalls]
    simp
  · rw [hcalls, ← List.append_assoc]
    refine List.pairwise_append.mpr ⟨h.ordered_append hnew, List.pairwise_singleton _ _, ?_⟩
    intro a ha b hb hcloses
    obtain ha | ha := List.mem_append.mp ha
    · rw [h.not_closes hid a ha] at hcloses
      cases hcloses
    · rw [(hnew a ha).closes_false] at hcloses
      cases hcloses

/-- Calls of the handle, and a handle that follows them. -/
theorem handled (h : Held events s) {e : Event} {new : List Call}
    (he : ∀ t statusCode, e ≠ .grpcStreamClose t statusCode)
    (hcalls : s'.calls = s.calls ++ new) (hhandled : Handled s.grpcStreamId new s'.grpcStreamId)
    (hstate : s'.state = .active ↔ s.state = .active) : Held (events ++ [e]) s' := by
  generalize hid' : s'.grpcStreamId = id' at hhandled
  cases hhandled with
  | running new hnew => exact h.handled_running he hcalls hnew hid' hstate
  | closed t new hid hnew => exact h.handled_closed he hcalls hid hnew hid' hstate

/-- The report that the stream is over. -/
theorem reported (h : Held events s) {statusCode : UInt32} (ht : t ∈ opened s.calls) :
    Held (events ++ [.grpcStreamClose t statusCode]) (onGrpcStreamClose s) := by
  have hcalls : (onGrpcStreamClose s).calls =
      s.calls ++ [.setDownstreamData 0 0 (encodeWsFrame 0x08 [0x03, 0xE8])] := rfl
  have hopened : opened (onGrpcStreamClose s).calls = opened s.calls := by
    rw [hcalls, opened_append]
    exact List.append_nil _
  constructor
  · intro hfresh
    rw [hopened]
    exact ⟨rfl, (h.fresh hfresh).2⟩
  · rw [hopened]
    exact h.single
  · intro u hu
    cases hu
  · intro u hu
    rw [hopened]
    rw [hcalls, List.mem_append] at hu
    obtain hu | hu := hu
    · exact h.closed_opened u hu
    · cases List.mem_singleton.mp hu
  · intro u c hc
    rw [hopened]
    obtain hc | hc := List.mem_append.mp hc
    · exact h.reported_opened u c hc
    · cases List.mem_singleton.mp hc
      exact ht
  · intro _ u hu
    have hut : u = t := h.token_eq (hopened ▸ hu.opened) ht
    apply hu.not_reported statusCode
    rw [hut]
    simp
  · rw [hcalls]
    refine List.pairwise_append.mpr ⟨h.ordered, List.pairwise_singleton _ _, ?_⟩
    intro a _ b hb _
    cases List.mem_singleton.mp hb
    rfl

/-- The upgrade: the first and only `open_grpc_stream`. -/
theorem upgraded (h : Held events s) {data : Option Bytes} {result : Option UInt32}
    {cluster service method : Str} {initialMetadata : List (Str × Bytes)}
    (hwaiting : s.state = .awaitingUpgradeResponse) (hactive : s'.state = .active)
    (hcalls : s'.calls = s.calls ++ [.openGrpcStream cluster service method initialMetadata result])
    (hid : s'.grpcStreamId = result.or s.grpcStreamId) :
    Held (events ++ [.upstreamData data]) s' := by
  obtain ⟨hnone, hempty⟩ := h.fresh (by rw [hwaiting]; exact nofun)
  rw [hnone, Option.or_none] at hid
  have hopened : opened s'.calls = result.toList := by
    rw [hcalls, opened_append, hempty]
    cases result <;> rfl
  have hclosed : ∀ u, .closeGrpcStream u ∉ s'.calls := by
    intro u hu
    rw [hcalls, List.mem_append] at hu
    obtain hu | hu := hu
    · exact absurd (h.closed_opened u hu) (by rw [hempty]; exact List.not_mem_nil)
    · cases List.mem_singleton.mp hu
  have hreported : ∀ u c, .grpcStreamClose u c ∉ events ++ [.upstreamData data] := by
    intro u c hc
    obtain hc | hc := List.mem_append.mp hc
    · exact absurd (h.reported_opened u c hc) (by rw [hempty]; exact List.not_mem_nil)
    · cases List.mem_singleton.mp hc
  constructor
  · intro hfresh
    exact absurd hactive hfresh
  · rw [hopened]
    cases result <;> simp
  · intro u hu
    rw [hid] at hu
    refine ⟨?_, hclosed u, hreported u⟩
    rw [hopened, hu]
    exact List.mem_singleton_self u
  · intro u hu
    exact absurd hu (hclosed u)
  · intro u c hc
    exact absurd hc (hreported u c)
  · intro hid' u hu
    have hmem := hu.opened
    rw [hopened, ← hid, hid'] at hmem
    cases hmem
  · rw [hcalls]
    refine List.pairwise_append.mpr ⟨h.ordered, List.pairwise_singleton _ _, ?_⟩
    intro a _ b hb _
    cases List.mem_singleton.mp hb
    rfl

/-- One callback. -/
theorem step (h : Held events s) (env : Env) {e : Event} (hlive : s.trap = none)
    (htoken : ∀ t, e.token? = some t → t ∈ opened s.calls)
    (htime : ∀ t, e = .grpcStreamInitialMetadata t → StreamOpen events s t) :
    Held (events ++ [e]) (Wasm.step env s e) := by
  cases e with
  | downstreamData chunk =>
      obtain ⟨new, hcalls, hhandled, hstate⟩ := downstream_handled env hlive chunk
      exact h.handled (by simp) hcalls hhandled hstate
  | upstreamData data =>
      obtain hsame | ⟨initialMetadata, hwaiting, hactive, hcalls, hid⟩ :=
        upstream_cases env hlive data
      · rw [hsame]
        exact h.handled (by simp) (List.append_nil _).symm (.running [] (by simp)) Iff.rfl
      · exact h.upgraded hwaiting hactive hcalls hid
  | grpcStreamInitialMetadata t =>
      have hopen := htime t rfl
      have hid : s.grpcStreamId = some t := by
        cases hid : s.grpcStreamId with
        | none => exact absurd hopen (h.spent hid t)
        | some u => rw [h.token_eq (h.safe u hid).opened hopen.opened]
      have hstep : Wasm.step env s (.grpcStreamInitialMetadata t) =
          { s with grpcStreamId := some t } := by
        simp only [Wasm.step, hlive, Option.isSome_none, Bool.false_eq_true, if_false,
          onGrpcStreamInitialMetadata]
      rw [hstep, ← hid]
      exact h.handled (by simp) (List.append_nil _).symm (.running [] (by simp)) Iff.rfl
  | grpcStreamMessage t data =>
      obtain ⟨new, hnew, hcalls, hid, hstate⟩ := message_keeps env s t data
      refine h.handled (by simp) hcalls ?_ (by rw [hstate])
      rw [hid]
      exact .running new fun c hc => (hnew c hc).of_none
  | grpcStreamClose t statusCode =>
      have hstep : Wasm.step env s (.grpcStreamClose t statusCode) = onGrpcStreamClose s := by
        simp only [Wasm.step, hlive, Option.isSome_none, Bool.false_eq_true, if_false]
      rw [hstep]
      exact h.reported (htoken t rfl)

end Held

/-- A new filter. -/
theorem held_new (grpcCluster grpcService : Str) :
    Held [] { grpcCluster, grpcService } where
  fresh _ := ⟨rfl, rfl⟩
  single := Nat.zero_le 1
  safe _ h := nomatch h
  closed_opened _ h := nomatch h
  reported_opened _ _ h := nomatch h
  spent _ _ h := nomatch h.opened
  ordered := List.Pairwise.nil

/-- A whole run. -/
theorem run_held {env : Env} {s : WsBridgeStream} (hnew : Held [] s) {events : List Event}
    (hhost : HostRun env s events) (htime : MetadataOnTime env s events) :
    Held events (run env s events) := by
  induction events using List.reverseRecOn with
  | nil => exact hnew
  | append_singleton before e ih =>
      obtain ⟨hhost, hlive, htoken⟩ := atEach_concat.mp hhost
      obtain ⟨htime, hmetadata⟩ := atEach_concat.mp htime
      rw [run_concat]
      exact (ih hhost htime).step env hlive htoken hmetadata

/-! ## After a Close -/

theorem AtEach.of_append {p : List Event → Event → Prop} {events more : List Event}
    (h : AtEach p (events ++ more)) : AtEach p events := by
  intro before e after hsplit
  apply h before e (after ++ more)
  rw [hsplit, List.append_assoc, List.cons_append]

theorem streamUses_append (xs ys : List Call) :
    streamUses (xs ++ ys) = streamUses xs ++ streamUses ys := List.filter_append ..

theorem streamUses_ordinary {new : List Call} (h : ∀ c ∈ new, c.Ordinary none) :
    streamUses new = [] := by
  apply List.filter_eq_nil_iff.mpr
  intro c hc
  rw [(h c hc).uses_none]
  exact Bool.false_ne_true

/-- Upgraded, and the stream over or never opened. -/
structure Over (s : WsBridgeStream) : Prop where
  state : s.state = .active
  grpcStreamId : s.grpcStreamId = none

/-- The chunk with the Close. -/
theorem over_of_close {env : Env} {s : WsBridgeStream} (hstate : s.state = .active)
    (hlive : s.trap = none) {chunk : Bytes}
    (hclose : ReachesClose env.bits (s.downstreamBuf ++ chunk)) :
    Over (step env s (.downstreamData (some chunk))) := by
  refine ⟨step_stays_active hstate chunk, ?_⟩
  obtain ⟨new, -, -, hnone⟩ := scan_handled env.bits
    { s with downstreamBuf := [] } (s.downstreamBuf ++ chunk)
  rw [step_active hstate hlive]
  exact hnone hclose

/-- One callback once the stream is over. -/
theorem over_step (env : Env) {events : List Event} {s : WsBridgeStream} (hover : Over s)
    (h : Held events s) {e : Event} (hlive : s.trap = none)
    (htime : ∀ t, e = .grpcStreamInitialMetadata t → StreamOpen events s t) :
    Over (step env s e) ∧ streamUses (step env s e).calls = streamUses s.calls := by
  have hquiet : ∀ new, (∀ c ∈ new, c.Ordinary none) →
      streamUses (s.calls ++ new) = streamUses s.calls := by
    intro new hnew
    rw [streamUses_append, streamUses_ordinary hnew, List.append_nil]
  cases e with
  | downstreamData chunk =>
      obtain ⟨new, hcalls, hhandled, hstate⟩ := downstream_handled env hlive chunk
      rw [hover.grpcStreamId] at hhandled
      generalize hid : (step env s (.downstreamData chunk)).grpcStreamId = id' at hhandled
      cases hhandled with
      | running new hnew =>
          rw [hcalls]
          exact ⟨⟨hstate.mpr hover.state, hid⟩, hquiet new hnew⟩
      | closed t new hopen hnew => cases hopen
  | upstreamData data =>
      obtain hsame | ⟨-, hwaiting, -⟩ := upstream_cases env hlive data
      · rw [hsame]
        exact ⟨hover, rfl⟩
      · rw [hover.state] at hwaiting
        cases hwaiting
  | grpcStreamInitialMetadata t =>
      exact absurd (htime t rfl) (h.spent hover.grpcStreamId t)
  | grpcStreamMessage t data =>
      obtain ⟨new, hnew, hcalls, hid, hstate⟩ := message_keeps env s t data
      rw [hcalls]
      exact ⟨⟨hstate.trans hover.state, hid.trans hover.grpcStreamId⟩, hquiet new hnew⟩
  | grpcStreamClose t statusCode =>
      simp only [step, hlive, Option.isSome_none, Bool.false_eq_true, if_false]
      refine ⟨⟨hover.state, rfl⟩, hquiet [_] ?_⟩
      intro c hc
      cases List.mem_singleton.mp hc
      trivial

/-- The rest of the run. -/
theorem over_run {env : Env} {s : WsBridgeStream} (hnew : Held [] s) {before after : List Event}
    (hhost : HostRun env s (before ++ after)) (htime : MetadataOnTime env s (before ++ after))
    (hover : Over (run env s before)) :
    Over (run env s (before ++ after)) ∧
      streamUses (run env s (before ++ after)).calls = streamUses (run env s before).calls := by
  induction after using List.reverseRecOn with
  | nil =>
      rw [List.append_nil]
      exact ⟨hover, rfl⟩
  | append_singleton after e ih =>
      rw [← List.append_assoc] at hhost htime ⊢
      obtain ⟨hhost, hlive, -⟩ := atEach_concat.mp hhost
      obtain ⟨htime, hmetadata⟩ := atEach_concat.mp htime
      obtain ⟨hsofar, huses⟩ := ih hhost htime
      obtain ⟨hstep, hsame⟩ :=
        over_step env hsofar (run_held hnew hhost htime) hlive hmetadata
      rw [run_concat]
      exact ⟨hstep, hsame.trans huses⟩

/-! ## The law of the handle -/

/-- The handle names an open stream at every moment of the run; nothing is
written to a stream or closed after a `close_grpc_stream`; and nothing is after a
Close frame of the client. -/
structure HandleLaw (env : Env) (s : WsBridgeStream) (events : List Event) : Prop where
  handle_open : ∀ before after, events = before ++ after → ∀ t,
    (run env s before).grpcStreamId = some t → StreamOpen before (run env s before) t
  closed_last : (run env s events).calls.Pairwise fun a b => a.closes = true → b.uses = none
  silent : ∀ before chunk after, events = before ++ .downstreamData (some chunk) :: after →
    (run env s before).state = .active →
    ReachesClose env.bits ((run env s before).downstreamBuf ++ chunk) →
    streamUses (run env s events).calls =
      streamUses (run env s (before ++ [.downstreamData (some chunk)])).calls

/-- The filter keeps the law in exactly the runs whose initial metadata arrives
for an open stream. -/
theorem handle_law_iff (env : Env) (grpcCluster grpcService : Str) (events : List Event)
    (hhost : HostRun env { grpcCluster, grpcService } events) :
    HandleLaw env { grpcCluster, grpcService } events ↔
      MetadataOnTime env { grpcCluster, grpcService } events := by
  have hnew := held_new grpcCluster grpcService
  generalize ({ grpcCluster, grpcService } : WsBridgeStream) = s at hhost hnew ⊢
  constructor
  · rintro ⟨hopen, -, -⟩ before e after rfl t rfl
    have hlive := (hhost before _ after rfl).1
    -- the callback leaves its token in the handle, whatever was there
    have hid : (run env s (before ++ [.grpcStreamInitialMetadata t])).grpcStreamId = some t := by
      rw [run_concat]
      simp only [step, hlive, Option.isSome_none, Bool.false_eq_true, if_false,
        onGrpcStreamInitialMetadata]
    have hcalls : (run env s (before ++ [.grpcStreamInitialMetadata t])).calls =
        (run env s before).calls := by
      rw [run_concat]
      simp only [step, hlive, Option.isSome_none, Bool.false_eq_true, if_false,
        onGrpcStreamInitialMetadata]
    obtain ⟨hopened, hclosed, hreported⟩ :=
      hopen (before ++ [.grpcStreamInitialMetadata t]) after (by simp) t hid
    rw [hcalls] at hopened hclosed
    exact ⟨hopened, hclosed, fun c hc => hreported c (List.mem_append_left _ hc)⟩
  · intro htime
    refine ⟨?_, (run_held hnew hhost htime).ordered, ?_⟩
    · rintro before after rfl
      exact (run_held hnew hhost.of_append htime.of_append).safe
    · rintro before chunk after rfl hstate hclose
      have hlive := (hhost before _ after rfl).1
      have hover := over_of_close hstate hlive hclose
      rw [← run_concat] at hover
      have hsplit : before ++ .downstreamData (some chunk) :: after =
          (before ++ [.downstreamData (some chunk)]) ++ after := by simp
      rw [hsplit] at hhost htime ⊢
      exact (over_run hnew hhost htime hover).2

/-- The upgrade, initial metadata in time, and a Close. -/
theorem handle_law_iff_upgrade :
    HandleLaw ⟨32, .ascii, fun _ => some 7⟩ { grpcCluster := [], grpcService := [] }
      [.downstreamData (some (utf8Encode "GET / HTTP/1.1\r\n\r\n".toList)),
        .upstreamData (some (utf8Encode "HTTP/1.1 101\r\n\r\n".toList)),
        .grpcStreamInitialMetadata 7, .downstreamData (some [0x88, 0x00])] := by
  refine (handle_law_iff ⟨32, .ascii, fun _ => some 7⟩ [] [] _ ?_).mpr ?_
  · refine .concat [_, _, _] (.concat [_, _] (.concat [_] (.concat [] atEach_nil
      ⟨rfl, nofun⟩) ⟨by decide, nofun⟩) ⟨by decide, ?_⟩) ⟨by decide, nofun⟩
    intro t ht
    cases ht
    decide
  · refine .concat [_, _, _] (.concat [_, _] (.concat [_] (.concat [] atEach_nil
      nofun) nofun) ?_) nofun
    intro t ht
    cases ht
    exact ⟨by decide, by decide, by simp⟩

/-- The client closes before the server's initial metadata is there: its next
frame is written to the closed stream. -/
theorem late_metadata_reopens :
    let env : Env := ⟨32, .ascii, fun _ => some 7⟩
    let events : List Event :=
      [.downstreamData (some (utf8Encode "GET / HTTP/1.1\r\n\r\n".toList)),
        .upstreamData (some (utf8Encode "HTTP/1.1 101\r\n\r\n".toList)),
        .downstreamData (some [0x88, 0x00]), .grpcStreamInitialMetadata 7,
        .downstreamData (some [0x81, 0x01, 0x41])]
    HostRun env { grpcCluster := [], grpcService := [] } events ∧
      streamUses (run env { grpcCluster := [], grpcService := [] } events).calls =
        [.closeGrpcStream 7, .sendGrpcStreamMessage 7 [0x0A, 0x01, 0x41] false] ∧
      ¬ HandleLaw env { grpcCluster := [], grpcService := [] } events := by
  intro env events
  refine ⟨?_, by decide, ?_⟩
  · refine .concat [_, _, _, _] (.concat [_, _, _] (.concat [_, _] (.concat [_] (.concat []
      atEach_nil ⟨rfl, nofun⟩) ⟨by decide, nofun⟩) ⟨by decide, nofun⟩) ⟨by decide, ?_⟩)
      ⟨by decide, nofun⟩
    intro t ht
    cases ht
    decide
  · intro h
    exact absurd h.closed_last (by decide)

end Grpcgi.Wasm
