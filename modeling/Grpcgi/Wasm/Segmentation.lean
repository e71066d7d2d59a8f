import Grpcgi.Wasm.Relay

/-!
# Segmentation of the client's stream

What the WASM filter does with a stream of frames does not depend on where the
stream is cut, as long as no Ping follows a Close. The loop stops at a Close and
leaves the bytes behind it in the buffer. Nothing records that the client has
closed, so that the next callback, if there is one, goes on with these bytes.
-/

namespace Grpcgi.Wasm

open WebSocket (Frame encodeAll)
open Incremental (Decoder foldWhile foldWhile_append)
open Incremental.Decoder (handleAll handleAll_append handleAll_of_foldWhile)

/-! ## The calls of a stream -/

/-- The calls of one frame once the stream has been closed. -/
def closedCalls (f : Frame) : List Call :=
  if f.IsPing then [.setDownstreamData 0 0 (encodeWsFrame 0x0A f.payload)] else []

/-- The calls of frames handled one after the other, whatever stops the loop in
between; the first argument is `grpc_stream_id`. -/
def streamCalls : Option UInt32 → List Frame → List Call
  | _, [] => []
  | some id, f :: fs =>
    if f.IsClose then .closeGrpcStream id :: streamCalls none fs
    else frameCalls id f ++ streamCalls (some id) fs
  | none, f :: fs => closedCalls f ++ streamCalls none fs

theorem dispatchFrame_closed {s : WsBridgeStream} (h : s.grpcStreamId = none) (f : Frame) :
    dispatchFrame s (wsView f) = (s.calling (closedCalls f), decide ¬ f.IsClose) := by
  simp only [dispatchFrame, wsView, f.byte_text, f.byte_binary, f.byte_close, f.byte_ping, h,
    closedCalls]
  by_cases hdata : f.IsData
  · have hopcode : f.IsText ∨ f.IsBinary := hdata
    have hclose : ¬ f.IsClose := fun hc => Frame.not_data_of_close hc hdata
    simp [hopcode, hclose, Frame.not_ping_of_data hdata]
  · have hopcode : ¬ (f.IsText ∨ f.IsBinary) := hdata
    by_cases hclose : f.IsClose
    · simp [hopcode, hclose, Frame.not_ping_of_close hclose]
    · by_cases hping : f.IsPing
      · simp [hopcode, hclose, hping, WsBridgeStream.emit, WsBridgeStream.calling]
      · simp [hopcode, hclose, hping]

theorem dispatchFrame_close {s : WsBridgeStream} {id : UInt32} (h : s.grpcStreamId = some id)
    {f : Frame} (hclose : f.IsClose) :
    dispatchFrame s (wsView f) =
      ({ s.calling [.closeGrpcStream id] with grpcStreamId := none }, false) := by
  have hopcode : ¬ (f.IsText ∨ f.IsBinary) := Frame.not_data_of_close hclose
  simp only [dispatchFrame, wsView, f.byte_text, f.byte_binary, f.byte_close, if_neg hopcode,
    if_pos hclose, h]
  rfl

/-- The loop stops at a Close and at nothing else. -/
theorem dispatchFrame_stop {s : WsBridgeStream} {f : Frame} :
    (dispatchFrame s (wsView f)).2 = false ↔ f.IsClose := by
  cases hid : s.grpcStreamId with
  | none => simp [dispatchFrame_closed hid]
  | some id =>
      by_cases hclose : f.IsClose
      · simp [dispatchFrame_close hid hclose, hclose]
      · simp [dispatchFrame_open hid hclose, hclose]

def idAfter (id : Option UInt32) (frames : List Frame) : Option UInt32 :=
  if ∃ f ∈ frames, f.IsClose then none else id

theorem streamCalls_append (id : Option UInt32) (fs gs : List Frame) :
    streamCalls id (fs ++ gs) = streamCalls id fs ++ streamCalls (idAfter id fs) gs := by
  induction fs generalizing id with
  | nil => simp [streamCalls, idAfter]
  | cons f fs ih =>
      cases id with
      | none =>
          have hnone (fs : List Frame) : idAfter none fs = none := by simp [idAfter]
          rw [List.cons_append, streamCalls, streamCalls, ih, hnone, hnone, List.append_assoc]
      | some id =>
          rw [List.cons_append, streamCalls, streamCalls]
          split
          · rename_i hclose
            have hafter : idAfter (some id) (f :: fs) = idAfter none fs := by
              simp [idAfter, hclose]
            rw [ih, hafter, List.cons_append]
          · rename_i hclose
            have hafter : idAfter (some id) (f :: fs) = idAfter (some id) fs := by
              simp [idAfter, hclose]
            rw [ih, hafter, List.append_assoc]

/-- Frames handled one after the other, each exactly once. -/
theorem handleAll_calls (s : WsBridgeStream) (frames : List Frame) :
    (handleAll dispatchFrame wsView s frames).calls =
      s.calls ++ streamCalls s.grpcStreamId frames := by
  induction frames generalizing s with
  | nil => simp [handleAll, streamCalls]
  | cons f fs ih =>
      change (handleAll dispatchFrame wsView (dispatchFrame s (wsView f)).1 fs).calls = _
      rw [ih]
      cases hid : s.grpcStreamId with
      | none => simp [dispatchFrame_closed hid, WsBridgeStream.calling, hid, streamCalls]
      | some id =>
          by_cases hclose : f.IsClose
          · simp [dispatchFrame_close hid hclose, WsBridgeStream.calling, streamCalls, hclose]
          · simp [dispatchFrame_open hid hclose, WsBridgeStream.calling, hid, streamCalls, hclose]

theorem handleAll_keeps (s : WsBridgeStream) (frames : List Frame) :
    (handleAll dispatchFrame wsView s frames).state = s.state ∧
      (handleAll dispatchFrame wsView s frames).downstreamBuf = s.downstreamBuf ∧
      (handleAll dispatchFrame wsView s frames).trap = s.trap := by
  induction frames generalizing s with
  | nil => exact ⟨rfl, rfl, rfl⟩
  | cons f fs ih =>
      obtain ⟨hstate, hbuf, htrap⟩ := ih (dispatchFrame s (wsView f)).1
      obtain ⟨hstate', hbuf', htrap'⟩ := dispatchFrame_keeps s (wsView f)
      exact ⟨hstate.trans hstate', hbuf.trans hbuf', htrap.trans htrap'⟩

/-! ## Delivery in chunks -/

/-- Where the filter stands in a stream while `more` is yet to arrive: it has
handled some of the frames, one after the other, and buffers a part of the rest.
When all has arrived, only a Close can have kept it from handling every frame. -/
inductive Standing (s : WsBridgeStream) (frames : List Frame) (tail more : Bytes) :
    WsBridgeStream → Prop where
  | mk (done left : List Frame) (r : Bytes) (split : frames = done ++ left)
      (bytes : r ++ more = encodeAll left ++ tail)
      (all : more = [] → left = [] ∨ ∃ f ∈ done, f.IsClose) :
      Standing s frames tail more
        { handleAll dispatchFrame wsView s done with downstreamBuf := r }

section Delivery

variable {env : Env} {s : WsBridgeStream} {id : UInt32} {frames : List Frame} {tail : Bytes}

theorem standing_start (hbuf : s.downstreamBuf = []) :
    Standing s frames tail (encodeAll frames ++ tail) s := by
  have hself : { handleAll dispatchFrame wsView s [] with downstreamBuf := [] } = s := by
    cases s
    simp_all [handleAll]
  rw [← hself]
  refine .mk [] frames [] rfl rfl ?_
  intro hnil
  cases frames with
  | nil => exact .inl rfl
  | cons f fs =>
      rw [WebSocket.encodeAll_cons, List.append_assoc] at hnil
      exact absurd (List.append_eq_nil_iff.mp hnil).1 (List.cons_ne_nil _ _)

theorem Standing.step (hopen : Open s id) (hwidth : ∀ f ∈ frames, f.encode.length < 2 ^ env.bits)
    (htail : ∀ cs, cs <+: tail → (wsDecoder env.bits).attempt cs = .more) {chunk more : Bytes}
    {u : WsBridgeStream} (h : Standing s frames tail (chunk ++ more) u) :
    Standing s frames tail more (step env u (.downstreamData (some chunk))) := by
  obtain ⟨done, left, r, rfl, bytes, -⟩ := h
  obtain ⟨hstate, hbuf, htrap⟩ := handleAll_keeps s done
  rw [step_active (s := { handleAll dispatchFrame wsView s done with downstreamBuf := r })
    (hstate.trans hopen.state) (htrap.trans hopen.trap)]
  have hclear : { handleAll dispatchFrame wsView s done with downstreamBuf := [] } =
      handleAll dispatchFrame wsView s done := by
    rw [hopen.downstreamBuf] at hbuf
    generalize handleAll dispatchFrame wsView s done = t at hbuf ⊢
    cases t
    simp_all
  have hbytes : (r ++ chunk) ++ more = encodeAll left ++ tail := by
    rw [List.append_assoc]
    exact bytes
  have hprogress := Decoder.scan_progress dispatchFrame
    (fun f hf => attemptWsFrame_encode f (hwidth f (List.mem_append_right done hf))) htail
    hbytes (handleAll dispatchFrame wsView s done)
  simp only [hclear]
  generalize (wsDecoder env.bits).scan dispatchFrame _ _ = result at hprogress ⊢
  cases hprogress with
  | rest done' left r split bytes all =>
      rw [← handleAll_append]
      exact .mk (done ++ done') left r (by rw [split, List.append_assoc]) bytes
        fun hmore => .inl (all hmore)
  | stopped done' f left r split bytes stop =>
      rw [← handleAll_append]
      refine .mk (done ++ (done' ++ [f])) left r (by simp [split]) bytes fun _ => .inr ⟨f, ?_, ?_⟩
      · simp
      · exact dispatchFrame_stop.mp stop

theorem Standing.deliver (hopen : Open s id)
    (hwidth : ∀ f ∈ frames, f.encode.length < 2 ^ env.bits)
    (htail : ∀ cs, cs <+: tail → (wsDecoder env.bits).attempt cs = .more) {chunks : List Bytes}
    {u : WsBridgeStream} (h : Standing s frames tail chunks.flatten u) :
    Standing s frames tail [] (deliver env u chunks) := by
  induction chunks generalizing u with
  | nil => exact h
  | cons chunk chunks ih => exact ih (h.step hopen hwidth htail)

/-- The calls of a delivered stream: those of some of its frames, which are all
of them unless a Close is among them. -/
theorem deliver_calls (hopen : Open s id)
    (hwidth : ∀ f ∈ frames, f.encode.length < 2 ^ env.bits)
    (htail : ∀ cs, cs <+: tail → (wsDecoder env.bits).attempt cs = .more) {chunks : List Bytes}
    (hchunks : chunks.flatten = encodeAll frames ++ tail) :
    ∃ done left, frames = done ++ left ∧ (left = [] ∨ ∃ f ∈ done, f.IsClose) ∧
      (deliver env s chunks).calls = s.calls ++ streamCalls (some id) done := by
  have hstart : Standing s frames tail (encodeAll frames ++ tail) s :=
    standing_start hopen.downstreamBuf
  rw [← hchunks] at hstart
  have hend := hstart.deliver hopen hwidth htail
  generalize Wasm.deliver env s chunks = t at hend ⊢
  obtain ⟨done, left, r, split, -, all⟩ := hend
  exact ⟨done, left, split, all rfl, by rw [handleAll_calls, hopen.grpcStreamId]⟩

/-- Delivered frame by frame, every frame is handled: after a Close the next
callback goes on. -/
theorem deliver_each (hopen : s.state = .active ∧ s.downstreamBuf = [] ∧ s.trap = none)
    (hwidth : ∀ f ∈ frames, f.encode.length < 2 ^ env.bits)
    (htail : (wsDecoder env.bits).attempt tail = .more) :
    (deliver env s (frames.map Frame.encode ++ [tail])).calls =
      s.calls ++ streamCalls s.grpcStreamId frames := by
  rw [← handleAll_calls]
  induction frames generalizing s with
  | nil =>
      obtain ⟨hstate, hbuf, htrap⟩ := hopen
      change (step env s (.downstreamData (some tail))).calls = s.calls
      rw [step_active hstate htrap, hbuf, List.nil_append, Decoder.scan_more _ htail]
      rfl
  | cons f fs ih =>
      obtain ⟨hstate, hbuf, htrap⟩ := hopen
      have hread := attemptWsFrame_encode f (hwidth f List.mem_cons_self) []
      rw [List.append_nil] at hread
      have hself : { s with downstreamBuf := [] } = s := by
        cases s
        simp_all
      obtain ⟨hstate', hbuf', htrap'⟩ := dispatchFrame_keeps s (wsView f)
      have hnext := ih (s := (dispatchFrame s (wsView f)).1)
        ⟨hstate'.trans hstate, hbuf'.trans hbuf, htrap'.trans htrap⟩
        fun g hg => hwidth g (List.mem_cons_of_mem f hg)
      have hstep : step env s (.downstreamData (some f.encode)) =
          (dispatchFrame s (wsView f)).1 := by
        rw [step_active hstate htrap, hbuf, List.nil_append, hself]
        rw [hbuf] at hbuf'
        rcases hact : dispatchFrame s (wsView f) with ⟨t, _ | _⟩ <;> rw [hact] at hbuf'
        · rw [Decoder.scan_stop hread hact, List.drop_length]
          cases t
          simp_all [leave]
        · rw [Decoder.scan_item hread hact, List.drop_length, Decoder.scan_nil]
          cases t
          simp_all [leave]
      have hcons : deliver env s ((f :: fs).map Frame.encode ++ [tail]) =
          deliver env (step env s (.downstreamData (some f.encode)))
            (fs.map Frame.encode ++ [tail]) :=
        rfl
      rw [hcons, hstep, hnext]
      rfl

/-- Delivered at once, nothing behind the first Close is handled. -/
theorem deliver_whole (hopen : Open s id) {before after : List Frame} {c : Frame}
    (hbefore : ∀ f ∈ before, ¬ f.IsClose) (hclose : c.IsClose)
    (hwidth : ∀ f ∈ before ++ c :: after, f.encode.length < 2 ^ env.bits) :
    (deliver env s [encodeAll (before ++ c :: after) ++ tail]).calls =
      s.calls ++ streamCalls (some id) (before ++ [c]) := by
  have hfold : foldWhile dispatchFrame s ((before ++ c :: after).map wsView) =
      (handleAll dispatchFrame wsView s (before ++ [c]), false) := by
    have hrun := foldWhile_dispatchFrame hopen.grpcStreamId hbefore
    have hall := handleAll_of_foldWhile hrun
    have hstop : (dispatchFrame (handleAll dispatchFrame wsView s before) (wsView c)).2 = false :=
      dispatchFrame_stop.mpr hclose
    rw [List.map_append, List.map_cons, foldWhile_append hrun, handleAll_append, hall]
    rw [hall] at hstop
    simp only [foldWhile, handleAll, List.foldl_cons, List.foldl_nil]
    rcases hact : dispatchFrame _ (wsView c) with ⟨t, _ | _⟩
    · rfl
    · rw [hact] at hstop
      cases hstop
  obtain ⟨unread, hscan⟩ := Decoder.scan_flatMap_false
    (fun f hf => attemptWsFrame_encode f (hwidth f hf)) hfold tail
  have hself : { s with downstreamBuf := [] } = s := by
    have hbuf := hopen.downstreamBuf
    cases s
    simp_all
  change (step env s (.downstreamData (some _))).calls = _
  rw [step_active hopen.state hopen.trap, hopen.downstreamBuf, List.nil_append, hself]
  rw [encodeAll, hscan, leave, handleAll_calls, hopen.grpcStreamId]

end Delivery

/-! ## Independence -/

def NoPingAfterClose (frames : List Frame) : Prop :=
  frames.Pairwise fun f g => f.IsClose → ¬ g.IsPing

instance (frames : List Frame) : Decidable (NoPingAfterClose frames) :=
  inferInstanceAs (Decidable (frames.Pairwise _))

/-- Behind a Close only Pings have calls. -/
theorem streamCalls_closed {frames : List Frame} :
    streamCalls none frames = [] ↔ ∀ f ∈ frames, ¬ f.IsPing := by
  induction frames with
  | nil => simp [streamCalls]
  | cons f fs ih =>
      rw [streamCalls, List.append_eq_nil_iff, ih, List.forall_mem_cons, closedCalls]
      simp

/-- The first Close of a stream in which a Ping follows one. -/
theorem exists_firstClose {frames : List Frame} (h : ¬ NoPingAfterClose frames) :
    ∃ before c after, frames = before ++ c :: after ∧ (∀ f ∈ before, ¬ f.IsClose) ∧ c.IsClose ∧
      ∃ f ∈ after, f.IsPing := by
  induction frames with
  | nil => exact absurd List.Pairwise.nil h
  | cons f fs ih =>
      by_cases hclose : f.IsClose
      · refine ⟨[], f, fs, rfl, by simp, hclose, ?_⟩
        by_contra hping
        apply h
        have hnone : ∀ g ∈ fs, ¬ g.IsPing := fun g hg hp => hping ⟨g, hg, hp⟩
        refine List.pairwise_cons.mpr ⟨fun g hg _ => hnone g hg, ?_⟩
        exact List.pairwise_of_forall_mem_list fun _ _ g hg _ => hnone g hg
      · have hrest : ¬ NoPingAfterClose fs := fun hfs =>
          h (List.pairwise_cons.mpr ⟨fun g _ hc => absurd hc hclose, hfs⟩)
        obtain ⟨before, c, after, rfl, hbefore, hc, hping⟩ := ih hrest
        exact ⟨f :: before, c, after, rfl, List.forall_mem_cons.mpr ⟨hclose, hbefore⟩, hc, hping⟩

/-- However such a stream is cut, its calls are those of all its frames. -/
theorem deliver_calls_all {env : Env} {s : WsBridgeStream} {id : UInt32} (hopen : Open s id)
    {frames : List Frame} {tail : Bytes} (hnoping : NoPingAfterClose frames)
    (hwidth : ∀ f ∈ frames, f.encode.length < 2 ^ env.bits)
    (htail : ∀ cs, cs <+: tail → (wsDecoder env.bits).attempt cs = .more) {chunks : List Bytes}
    (hchunks : chunks.flatten = encodeAll frames ++ tail) :
    (deliver env s chunks).calls = s.calls ++ streamCalls (some id) frames := by
  obtain ⟨done, left, rfl, hall, hcalls⟩ := deliver_calls hopen hwidth htail hchunks
  have hnone : streamCalls (idAfter (some id) done) left = [] := by
    obtain rfl | ⟨c, hc, hclose⟩ := hall
    · cases idAfter (some id) done <;> rfl
    · rw [idAfter, if_pos ⟨c, hc, hclose⟩, streamCalls_closed]
      intro f hf
      exact (List.pairwise_append.mp hnoping).2.2 c hc f hf hclose
  rw [hcalls, streamCalls_append, hnone, List.append_nil]

/-- The effects of a stream are the same for every two ways of cutting it exactly
when no Ping follows a Close. The stream may end inside a frame. -/
theorem effects_independent_iff (env : Env) (hbits : 32 ≤ env.bits) {s : WsBridgeStream}
    {id : UInt32} (hopen : Open s id) (frames : List Frame) (tail : Bytes)
    (hlength : ∀ f ∈ frames, f.payload.length < 2 ^ 31)
    (htail : tail = [] ∨ ∃ f : Frame, f.payload.length < 2 ^ 31 ∧ tail <+: f.encode ∧
      tail.length < f.encode.length) :
    (∀ chunks chunks' : List Bytes, chunks.flatten = encodeAll frames ++ tail →
        chunks'.flatten = encodeAll frames ++ tail →
        (deliver env s chunks).calls = (deliver env s chunks').calls) ↔
      NoPingAfterClose frames := by
  have hfits {f : Frame} (hf : f.payload.length < 2 ^ 31) : f.encode.length < 2 ^ env.bits := by
    have hpow : 2 ^ 32 ≤ 2 ^ env.bits := Nat.pow_le_pow_right (by decide) hbits
    have hle := f.length_encode_le
    omega
  have hwidth : ∀ f ∈ frames, f.encode.length < 2 ^ env.bits := fun f hf => hfits (hlength f hf)
  have hshort : ∀ cs, cs <+: tail → (wsDecoder env.bits).attempt cs = .more := by
    intro cs hcs
    obtain rfl | ⟨f, hf, hbegin, hlt⟩ := htail
    · rw [List.prefix_nil.mp hcs]
      rfl
    · apply (attemptWsFrame_encode f (hfits hf)).attempt_cut (hcs.trans hbegin)
      exact Nat.lt_of_le_of_lt hcs.length_le hlt
  constructor
  · intro hsame
    by_contra hping
    obtain ⟨before, c, after, rfl, hbefore, hclose, f, hf, hp⟩ := exists_firstClose hping
    have hwhole : (deliver env s [encodeAll (before ++ c :: after) ++ tail]).calls = _ :=
      deliver_whole hopen hbefore hclose hwidth
    have heach := deliver_each ⟨hopen.state, hopen.downstreamBuf, hopen.trap⟩ hwidth
      (hshort tail List.prefix_rfl)
    have hcut : ((before ++ c :: after).map Frame.encode ++ [tail]).flatten =
        encodeAll (before ++ c :: after) ++ tail := by
      simp [encodeAll, List.flatMap_def]
    have hid : idAfter (some id) (before ++ [c]) = none := if_pos ⟨c, by simp, hclose⟩
    -- cut between its frames, the stream has the calls behind the Close as well
    rw [hsame _ _ (List.append_nil _) hcut, heach, hopen.grpcStreamId,
      List.append_cons before c after, streamCalls_append, hid] at hwhole
    have hnil := List.append_right_eq_self.mp (List.append_cancel_left hwhole)
    exact streamCalls_closed.mp hnil f hf hp
  · intro hnoping chunks chunks' hchunks hchunks'
    rw [deliver_calls_all hopen hnoping hwidth hshort hchunks,
      deliver_calls_all hopen hnoping hwidth hshort hchunks']

/-- A Ping, a Close and a text frame that comes too late, cut inside the Ping and
not cut. -/
theorem effects_independent_iff_late :
    (deliver ⟨32, .ascii, fun _ => none⟩
      { state := .active, grpcStreamId := some 7, grpcCluster := [], grpcService := [] }
      [[0x89, 0x01], [0x05, 0x88, 0x00, 0x81, 0x01, 0x41]]).calls =
    (deliver ⟨32, .ascii, fun _ => none⟩
      { state := .active, grpcStreamId := some 7, grpcCluster := [], grpcService := [] }
      [[0x89, 0x01, 0x05, 0x88, 0x00, 0x81, 0x01, 0x41]]).calls :=
  (effects_independent_iff ⟨32, .ascii, fun _ => none⟩ (by decide) ⟨rfl, rfl, rfl, rfl⟩
    [⟨true, 0, 9, none, .short, [5], by decide⟩, ⟨true, 0, 8, none, .short, [], by decide⟩,
      ⟨true, 0, 1, none, .short, [0x41], by decide⟩] [] (by decide) (.inl rfl)).mpr (by decide)
    _ _ (by decide) (by decide)

/-- A Close and a Ping behind it: in one chunk the Ping is never answered, in two
it is. -/
theorem ping_after_close_answered :
    let frames : List Frame := [⟨true, 0, 8, none, .short, [], by decide⟩,
      ⟨true, 0, 9, none, .short, [5], by decide⟩]
    let s : WsBridgeStream :=
      { state := .active, grpcStreamId := some 7, grpcCluster := [], grpcService := [] }
    let env : Env := ⟨32, .ascii, fun _ => none⟩
    [[0x88, 0x00, 0x89, 0x01, 0x05]].flatten = encodeAll frames ∧
      [[0x88, 0x00], [0x89, 0x01, 0x05]].flatten = encodeAll frames ∧
      (deliver env s [[0x88, 0x00, 0x89, 0x01, 0x05]]).calls = [.closeGrpcStream 7] ∧
      (deliver env s [[0x88, 0x00], [0x89, 0x01, 0x05]]).calls =
        [.closeGrpcStream 7, .setDownstreamData 0 0 [0x8A, 0x01, 0x05]] ∧
      (deliver env s [[0x88, 0x00, 0x89, 0x01, 0x05]]).calls ≠
        (deliver env s [[0x88, 0x00], [0x89, 0x01, 0x05]]).calls := by
  decide

end Grpcgi.Wasm
