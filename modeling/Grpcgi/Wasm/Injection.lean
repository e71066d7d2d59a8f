import Grpcgi.Wasm.Relay

/-!
# Frames in the host buffer

Server messages, Pongs and the Close frame reach the client through
`set_downstream_data`, which replaces a part of the host buffer. Every call site
replaces the empty part at its start. As long as the host drains nothing, each
frame is then in front of those that came before it.
-/

namespace Grpcgi.Wasm

open Incremental (Decoder)

/-! ## The host buffer -/

/-- A frame that the filter writes to the client. -/
structure Injection where
  opcode : UInt8
  payload : Bytes
  deriving DecidableEq, Repr

namespace Injection

def frame (i : Injection) : Bytes := encodeWsFrame i.opcode i.payload

theorem frame_ne_nil (i : Injection) : i.frame ≠ [] := List.cons_ne_nil _ _

end Injection

/-- The bytes of the host buffer. Each byte has the number of the write that put it
there, or is of the host. -/
structure HostBuffer where
  bytes : List (UInt8 × Option Nat)
  writes : Nat := 0
  deriving DecidableEq, Repr

namespace HostBuffer

/-- `set_downstream_data(start, size, data)`. -/
def set (b : HostBuffer) (start size : Nat) (data : Bytes) : HostBuffer where
  bytes := b.bytes.take start ++ data.map (·, some b.writes) ++ b.bytes.drop (start + size)
  writes := b.writes + 1

/-- What a call of the filter does to the buffer. -/
def call (b : HostBuffer) : Call → HostBuffer
  | .setDownstreamData start size data => b.set start size data
  | _ => b

/-- More bytes of the host at its end. -/
def arrive (b : HostBuffer) (data : Bytes) : HostBuffer :=
  { b with bytes := b.bytes ++ data.map (·, none) }

/-- The bytes that the filter has put there. -/
def injected (b : HostBuffer) : List (UInt8 × Option Nat) := b.bytes.filter fun x => x.2.isSome

end HostBuffer

/-- A filter and the downstream buffer of its host. -/
structure Host where
  filter : WsBridgeStream
  buffer : HostBuffer

namespace Host

/-- One callback, before which more bytes reach the buffer. -/
def step (env : Env) (h : Host) (arrived : Bytes) (e : Event) : Host :=
  let filter := Wasm.step env h.filter e
  { filter
    buffer := (filter.calls.drop h.filter.calls.length).foldl HostBuffer.call
      (h.buffer.arrive arrived) }

/-- Any callbacks, nothing drained in between. -/
def run (env : Env) (h : Host) (events : List (Bytes × Event)) : Host :=
  events.foldl (fun h e => h.step env e.1 e.2) h

end Host

/-! ## What the callbacks owe the client -/

/-- The Pongs for the frames of a chunk, up to a Close. -/
def pongStep (pongs : List Injection) : UInt8 × Bytes → List Injection × Bool
  | (opcode, payload) =>
    (if opcode = 0x09 then pongs ++ [⟨0x0A, payload⟩] else pongs, opcode != 0x08)

/-- The frames that a callback owes the client, and the bytes of a cut-off frame
after it; `none` after a trap. -/
def Event.owed (bits : Nat) (buf : Bytes) : Event → List Injection × Option Bytes
  | .downstreamData (some chunk) =>
    match (wsDecoder bits).scan pongStep [] (buf ++ chunk) with
    | (pongs, .rest r) => (pongs, some r)
    | (pongs, .stopped r) => (pongs, some r)
    | (pongs, .fault _ _) => (pongs, none)
  | .grpcStreamMessage _ (some data) =>
    match decodeFrameProto bits data with
    | .ok (some frame) => ([⟨if frame.binary then 0x02 else 0x01, frame.payload⟩], some buf)
    | .ok none => ([], some buf)
    | .error _ => ([], none)
  | .grpcStreamClose _ _ => ([⟨0x08, [0x03, 0xE8]⟩], some buf)
  | _ => ([], some buf)

/-- The frames that callbacks owe, in the order of the callbacks. -/
def owed (bits : Nat) : Bytes → List Event → List Injection
  | _, [] => []
  | buf, e :: events =>
    match e.owed bits buf with
    | (frames, some buf) => frames ++ owed bits buf events
    | (frames, none) => frames

/-- Frames with the numbers of their writes. -/
def numbered (frames : List Injection) : List (List (UInt8 × Option Nat)) :=
  frames.zipIdx.map fun i => i.1.frame.map (·, some i.2)

/-- The frames are in the buffer in this order. -/
def HostBuffer.InOrder (b : HostBuffer) (frames : List Injection) : Prop :=
  b.injected = (numbered frames).flatten

instance (b : HostBuffer) (frames : List Injection) : Decidable (b.InOrder frames) :=
  inferInstanceAs (Decidable (_ = _))

/-! ## The order that comes out -/

theorem numbered_append (frames : List Injection) (i : Injection) :
    numbered (frames ++ [i]) = numbered frames ++ [i.frame.map (·, some frames.length)] := by
  simp [numbered, List.zipIdx_append]

/-- The last write is the first in the buffer. -/
structure HostBuffer.Reversed (b : HostBuffer) (frames : List Injection) : Prop where
  injected_eq : b.injected = (numbered frames).reverse.flatten
  writes_eq : b.writes = frames.length

namespace HostBuffer.Reversed

variable {b : HostBuffer} {frames : List Injection}

theorem arrive (h : b.Reversed frames) (data : Bytes) : (b.arrive data).Reversed frames where
  injected_eq := by
    have hnone : (data.map fun byte => (byte, (none : Option Nat))).filter (fun x => x.2.isSome) =
        [] := by
      rw [List.filter_eq_nil_iff]
      intro x hx
      obtain ⟨byte, -, rfl⟩ := List.mem_map.mp hx
      exact Bool.false_ne_true
    rw [injected, HostBuffer.arrive, List.filter_append, hnone, List.append_nil]
    exact h.injected_eq
  writes_eq := h.writes_eq

/-- A write at the start of the buffer. -/
theorem set (h : b.Reversed frames) (i : Injection) :
    (b.set 0 0 i.frame).Reversed (frames ++ [i]) where
  injected_eq := by
    have hsome : (i.frame.map fun byte => (byte, some b.writes)).filter (fun x => x.2.isSome) =
        i.frame.map fun byte => (byte, some b.writes) := by
      rw [List.filter_eq_self]
      intro x hx
      obtain ⟨byte, -, rfl⟩ := List.mem_map.mp hx
      rfl
    have hset : (b.set 0 0 i.frame).bytes =
        (i.frame.map fun byte => (byte, some b.writes)) ++ b.bytes := rfl
    rw [injected, hset, List.filter_append, hsome, numbered_append, List.reverse_append,
      List.reverse_singleton, List.singleton_append, List.flatten_cons, ← h.injected_eq,
      ← h.writes_eq]
    rfl
  writes_eq := by
    rw [List.length_append, List.length_singleton, ← h.writes_eq]
    rfl

end HostBuffer.Reversed

/-! ## What the filter writes -/

/-- The arguments of a call that writes to the client. -/
def Call.write? : Call → Option (Nat × Nat × Bytes)
  | .setDownstreamData start size data => some (start, size, data)
  | _ => none

/-- The calls write these frames, each at the start of the buffer. -/
def Writes (calls : List Call) (frames : List Injection) : Prop :=
  calls.filterMap Call.write? = frames.map fun i => (0, 0, i.frame)

theorem writes_append {calls new : List Call} {frames more : List Injection}
    (h : Writes calls frames) (hnew : Writes new more) :
    Writes (calls ++ new) (frames ++ more) := by
  rw [Writes, List.filterMap_append, List.map_append, h, hnew]

theorem HostBuffer.Reversed.calls {b : HostBuffer} {frames more : List Injection}
    (h : b.Reversed frames) {calls : List Call} (hcalls : Writes calls more) :
    (calls.foldl HostBuffer.call b).Reversed (frames ++ more) := by
  induction calls generalizing b frames more with
  | nil =>
      obtain rfl : more = [] := List.map_eq_nil_iff.mp hcalls.symm
      rw [List.append_nil]
      exact h
  | cons c calls ih =>
      cases hwrite : c.write? with
      | none =>
          rw [Writes, List.filterMap_cons_none hwrite] at hcalls
          have hkeep : b.call c = b := by
            cases c with
            | setDownstreamData start size data => cases hwrite
            | _ => rfl
          rw [List.foldl_cons, hkeep]
          exact ih h hcalls
      | some write =>
          rw [Writes, List.filterMap_cons_some hwrite] at hcalls
          cases more with
          | nil => cases hcalls
          | cons i more =>
              obtain ⟨rfl, hrest⟩ := List.cons.inj hcalls
              have hset : b.call c = b.set 0 0 i.frame := by
                cases c with
                | setDownstreamData start size data =>
                    cases hwrite
                    rfl
                | _ => cases hwrite
              rw [List.foldl_cons, hset, ← List.singleton_append, ← List.append_assoc]
              exact ih (h.set i) hrest

/-- The filter has gone on and has written these frames. -/
def Wrote (s t : WsBridgeStream) (frames : List Injection) : Prop :=
  ∃ new, t.calls = s.calls ++ new ∧ Writes new frames

theorem wrote_same {s t : WsBridgeStream} (h : t.calls = s.calls) : Wrote s t [] :=
  ⟨[], by rw [h, List.append_nil], rfl⟩

theorem Wrote.append {s t u : WsBridgeStream} {frames more : List Injection}
    (h : Wrote s t frames) (hmore : Wrote t u more) : Wrote s u (frames ++ more) := by
  obtain ⟨new, hcalls, hwrites⟩ := h
  obtain ⟨rest, hrest, hwritesRest⟩ := hmore
  refine ⟨new ++ rest, ?_, writes_append hwrites hwritesRest⟩
  rw [hrest, hcalls, List.append_assoc]

/-- One frame of the client: a Ping is answered. -/
theorem wrote_dispatchFrame (s : WsBridgeStream) (frame : UInt8 × Bytes) :
    Wrote s (dispatchFrame s frame).1 (if frame.1 = 0x09 then [⟨0x0A, frame.2⟩] else []) := by
  obtain ⟨opcode, payload⟩ := frame
  simp only [dispatchFrame, WsBridgeStream.emit]
  by_cases hping : opcode = 0x09
  · subst hping
    rw [if_neg (by decide), if_neg (by decide), if_pos rfl, if_pos rfl]
    exact ⟨[_], rfl, rfl⟩
  · rw [if_neg hping, if_neg hping]
    split
    · cases s.grpcStreamId with
      | none => exact wrote_same rfl
      | some t => exact ⟨[_], rfl, rfl⟩
    · split
      · cases s.grpcStreamId with
        | none => exact wrote_same rfl
        | some t => exact ⟨[_], rfl, rfl⟩
      · exact wrote_same rfl

/-- The loop over the frames of a chunk writes the Pongs. -/
theorem scan_wrote (bits : Nat) {s : WsBridgeStream} (hstate : s.state = .active)
    (hlive : s.trap = none) (bs : Bytes) :
    let R := fun (t : WsBridgeStream) (pongs : List Injection) =>
      t.state = .active ∧ t.trap = none ∧ Wrote s t pongs
    Decoder.Related R R ((wsDecoder bits).scan dispatchFrame s bs)
      ((wsDecoder bits).scan pongStep [] bs) := by
  intro R
  apply Decoder.scan_related (wsDecoder bits)
  · rintro t pongs frame ⟨hactive, htrap, hwrote⟩
    obtain ⟨hkeepState, -, hkeepTrap⟩ := dispatchFrame_keeps t frame
    have hnext : R (dispatchFrame t frame).1 (pongStep pongs frame).1 := by
      have hstep : (pongStep pongs frame).1 =
          pongs ++ if frame.1 = 0x09 then [⟨0x0A, frame.2⟩] else [] := by
        simp only [pongStep]
        split
        · rfl
        · exact (List.append_nil _).symm
      rw [hstep]
      exact ⟨hkeepState.trans hactive, hkeepTrap.trans htrap,
        hwrote.append (wrote_dispatchFrame t frame)⟩
    have hgo : (pongStep pongs frame).2 = (dispatchFrame t frame).2 :=
      (dispatchFrame_go t frame).symm
    refine ⟨_, _, _, rfl, Prod.ext rfl hgo, ?_, ?_⟩
    · intro _
      exact hnext
    · intro _
      exact hnext
  · exact ⟨hstate, hlive, wrote_same rfl⟩

/-- How the filter stands after a callback that leaves these bytes, or traps. -/
def Stands (t : WsBridgeStream) : Option Bytes → Prop
  | some buf => t.state = .active ∧ t.trap = none ∧ t.downstreamBuf = buf
  | none => t.trap.isSome

/-- Each callback writes what it owes. -/
theorem step_owed (env : Env) {s : WsBridgeStream} (hstate : s.state = .active)
    (hlive : s.trap = none) (e : Event) :
    Wrote s (step env s e) (e.owed env.bits s.downstreamBuf).1 ∧
      Stands (step env s e) (e.owed env.bits s.downstreamBuf).2 := by
  have hsame : Wrote s s [] := wrote_same rfl
  have hstands : Stands s (some s.downstreamBuf) := ⟨hstate, hlive, rfl⟩
  have hnotrap : ¬ s.trap.isSome = true := by simp [hlive]
  cases e with
  | downstreamData chunk =>
      cases chunk with
      | none =>
          have hstep : step env s (.downstreamData none) = s := by
            simp only [step, onDownstreamData, hstate, ite_self]
          rw [hstep]
          exact ⟨hsame, hstands⟩
      | some chunk =>
          have hscan := scan_wrote env.bits (s := { s with downstreamBuf := [] }) hstate hlive
            (s.downstreamBuf ++ chunk)
          rw [step_active hstate hlive]
          simp only [Event.owed]
          generalize (wsDecoder env.bits).scan dispatchFrame { s with downstreamBuf := [] }
            (s.downstreamBuf ++ chunk) = real at hscan ⊢
          generalize (wsDecoder env.bits).scan pongStep [] (s.downstreamBuf ++ chunk) = ideal
            at hscan ⊢
          cases hscan with
          | rest h => exact ⟨h.2.2, h.1, h.2.1, rfl⟩
          | stopped h => exact ⟨h.2.2, h.1, h.2.1, rfl⟩
          | fault h => exact ⟨h.2.2, rfl⟩
  | upstreamData data =>
      have hstep : step env s (.upstreamData data) = s := by
        simp only [step, onUpstreamData, hstate, ite_self]
      rw [hstep]
      exact ⟨hsame, hstands⟩
  | grpcStreamInitialMetadata tokenId =>
      simp only [step, if_neg hnotrap]
      exact ⟨wrote_same rfl, hstate, hlive, rfl⟩
  | grpcStreamMessage tokenId data =>
      simp only [step, if_neg hnotrap]
      cases data with
      | none => exact ⟨hsame, hstands⟩
      | some data =>
          simp only [onGrpcStreamMessage, Event.owed]
          cases decodeFrameProto env.bits data with
          | error trap => exact ⟨wrote_same rfl, rfl⟩
          | ok frame =>
              cases frame with
              | none => exact ⟨hsame, hstands⟩
              | some frame => exact ⟨⟨[_], rfl, rfl⟩, hstate, hlive, rfl⟩
  | grpcStreamClose tokenId statusCode =>
      simp only [step, if_neg hnotrap]
      exact ⟨⟨[_], rfl, rfl⟩, hstate, hlive, rfl⟩

/-! ## Runs -/

namespace Host

variable {env : Env} {h : Host} {frames more : List Injection}

/-- A callback that writes these frames puts them in front. -/
theorem step_reversed (hreversed : h.buffer.Reversed frames) (arrived : Bytes) {e : Event}
    (hwrote : Wrote h.filter (Wasm.step env h.filter e) more) :
    (h.step env arrived e).buffer.Reversed (frames ++ more) := by
  obtain ⟨new, hcalls, hwrites⟩ := hwrote
  simp only [step, hcalls, List.drop_left]
  exact (hreversed.arrive arrived).calls hwrites

/-- An instance that has trapped writes nothing more. -/
theorem run_trapped (htrap : h.filter.trap.isSome) (hreversed : h.buffer.Reversed frames)
    (events : List (Bytes × Event)) : (h.run env events).buffer.Reversed frames := by
  induction events generalizing h with
  | nil => exact hreversed
  | cons e events ih =>
      have hfilter : Wasm.step env h.filter e.2 = h.filter := if_pos htrap
      have hwrote : Wrote h.filter (Wasm.step env h.filter e.2) [] := wrote_same (by rw [hfilter])
      have hstep := step_reversed hreversed e.1 hwrote
      rw [List.append_nil] at hstep
      refine ih ?_ hstep
      simp only [step, hfilter]
      exact htrap

/-- The last frame owed is the first in the buffer. -/
theorem run_reversed (hstate : h.filter.state = .active) (hlive : h.filter.trap = none)
    (hreversed : h.buffer.Reversed frames) (events : List (Bytes × Event)) :
    (h.run env events).buffer.Reversed
      (frames ++ owed env.bits h.filter.downstreamBuf (events.map Prod.snd)) := by
  induction events generalizing h frames with
  | nil =>
      rw [List.map_nil, owed, List.append_nil]
      exact hreversed
  | cons e events ih =>
      obtain ⟨hwrote, hstands⟩ := step_owed env hstate hlive e.2
      have hstep := step_reversed hreversed e.1 hwrote
      simp only [List.map_cons, owed]
      generalize e.2.owed env.bits h.filter.downstreamBuf = result at hstands hstep
      obtain ⟨now, _ | buf⟩ := result
      · exact run_trapped (h := h.step env e.1 e.2) hstands hstep events
      · obtain ⟨hactive, hnotrap, hbuf⟩ := hstands
        have hrest := ih (h := h.step env e.1 e.2) hactive hnotrap hstep
        have hleft : (h.step env e.1 e.2).filter.downstreamBuf = buf := hbuf
        rw [hleft, List.append_assoc] at hrest
        exact hrest

end Host

theorem head_frame (i : Injection) (n : Nat) (rest : List (UInt8 × Option Nat)) :
    (i.frame.map (·, some n) ++ rest).head?.map Prod.snd = some (some n) := by
  obtain ⟨byte, bytes, hframe⟩ := List.exists_cons_of_ne_nil i.frame_ne_nil
  rw [hframe]
  rfl

/-- Two frames or more are in one order only. -/
theorem reverse_numbered_iff (frames : List Injection) :
    (numbered frames).reverse.flatten = (numbered frames).flatten ↔ frames.length ≤ 1 := by
  constructor
  · intro heq
    cases frames with
    | nil => exact Nat.zero_le 1
    | cons first frames =>
        obtain rfl | ⟨between, last, rfl⟩ := List.eq_nil_or_concat frames
        · exact Nat.le_refl 1
        · -- the first byte is of the last write, and of the first
          have hfirst : (numbered (first :: between.concat last)).flatten.head?.map Prod.snd =
              some (some 0) := head_frame first 0 _
          rw [← heq, List.concat_eq_append, ← List.cons_append, numbered_append,
            List.reverse_append, List.reverse_singleton, List.singleton_append, List.flatten_cons,
            head_frame] at hfirst
          cases hfirst
  · intro hle
    cases frames with
    | nil => rfl
    | cons first frames =>
        have hempty := Nat.le_zero.mp (Nat.le_of_succ_le_succ hle)
        obtain rfl : frames = [] := List.length_eq_zero_iff.mp hempty
        rfl

/-- For every sequence of callbacks of an active filter, with nothing drained in
between: the frames it writes are in the host buffer in the order of the callbacks
that caused them exactly when these callbacks owe the client no more than one. -/
theorem injected_in_order_iff (env : Env) {s : WsBridgeStream} (hstate : s.state = .active)
    (hlive : s.trap = none) (buffer : Bytes) (events : List (Bytes × Event)) :
    let frames := owed env.bits s.downstreamBuf (events.map Prod.snd)
    (Host.run env ⟨s, { bytes := buffer.map (·, none) }⟩ events).buffer.InOrder frames ↔
      frames.length ≤ 1 := by
  intro frames
  have hstart : HostBuffer.Reversed { bytes := buffer.map (·, none) } [] :=
    HostBuffer.Reversed.arrive (b := { bytes := [] }) ⟨rfl, rfl⟩ buffer
  have hrun : (Host.run env ⟨s, { bytes := buffer.map (·, none) }⟩ events).buffer.Reversed
      frames := Host.run_reversed (h := ⟨s, _⟩) hstate hlive hstart events
  rw [HostBuffer.InOrder, hrun.injected_eq]
  exact reverse_numbered_iff frames

/-- An active filter with an open stream. -/
def activeFilter : WsBridgeStream :=
  { state := .active, grpcStreamId := some 7, grpcCluster := [], grpcService := [] }

/-- A message that decodes to no frame, a client's text frame and a Ping cut in two. -/
theorem injected_in_order_iff_ping :
    (Host.run ⟨32, .ascii, fun _ => none⟩ ⟨activeFilter, { bytes := [(0x41, none)] }⟩
      [([], .grpcStreamMessage 7 (some [0x0A])),
        ([0x81, 0x01], .downstreamData (some [0x81, 0x01])),
        ([0x48, 0x89], .downstreamData (some [0x48, 0x89])),
        ([0x00], .downstreamData (some [0x00]))]).buffer.InOrder [⟨0x0A, []⟩] :=
  (injected_in_order_iff ⟨32, .ascii, fun _ => none⟩ (s := activeFilter) rfl rfl [0x41]
    [([], .grpcStreamMessage 7 (some [0x0A])),
      ([0x81, 0x01], .downstreamData (some [0x81, 0x01])),
      ([0x48, 0x89], .downstreamData (some [0x48, 0x89])),
      ([0x00], .downstreamData (some [0x00]))]).mpr (by decide)

/-- Two messages of the server: the second is in front of the first. -/
theorem messages_reversed :
    let events : List (Bytes × Event) := [([], .grpcStreamMessage 7 (some [0x0A, 0x01, 0x41])),
      ([], .grpcStreamMessage 7 (some [0x0A, 0x01, 0x42]))]
    let h := Host.run ⟨32, .ascii, fun _ => none⟩ ⟨activeFilter, { bytes := [] }⟩ events
    h.buffer.bytes.map Prod.fst = [0x81, 0x01, 0x42, 0x81, 0x01, 0x41] ∧
      ¬ h.buffer.InOrder (owed 32 [] (events.map Prod.snd)) := by
  decide

end Grpcgi.Wasm
