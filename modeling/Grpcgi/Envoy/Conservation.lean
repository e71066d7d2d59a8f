import Grpcgi.Envoy.Filter
import Grpcgi.Incremental.Steps

/-!
# The bytes of a call

`processWebSocketData` gets the bytes left over from the last call and a buffer. What it
looks at ends up in the frames it parses or is kept for the next call, as long as the filter
stays active. Two things drop bytes: the clamp to 32 bits, and the `return` in the loop, which
leaves what stands behind the frame at which the filter has left the active state.
-/

namespace Grpcgi.Envoy

open Incremental (Decoder Step)

def parsedFrames (env : Env) (buf : Bytes) (s : Filter) : List (Step UInt8 WsFrame Filter) :=
  frameDecoder.steps (dispatch env) { s with frameRemainder := [] }
    ((s.frameRemainder ++ buf).take uint32Max)

def parsedBytes (env : Env) (buf : Bytes) (s : Filter) : Bytes :=
  (parsedFrames env buf s).flatMap Step.taken

def ParsesNoClose (env : Env) (buf : Bytes) (s : Filter) : Prop :=
  ∀ step ∈ parsedFrames env buf s, step.item.opcode ≠ kOpcodeClose

/-- The filter is active after this frame: it is no Close, and no remote close came while it
was passed on. -/
def ActiveAfter (env : Env) (step : Step UInt8 WsFrame Filter) : Prop :=
  (dispatch env step.before step.item).1.state = .active

def StaysActive (env : Env) (buf : Bytes) (s : Filter) : Prop :=
  ∀ step ∈ parsedFrames env buf s, ActiveAfter env step

/-- The last frame is the one at which the filter leaves the active state. -/
def LeavesAtLast (env : Env) (buf : Bytes) (s : Filter) : Prop :=
  ∃ init last, parsedFrames env buf s = init ++ [last] ∧ (∀ step ∈ init, ActiveAfter env step) ∧
    ¬ ActiveAfter env last

instance (env : Env) (buf : Bytes) (s : Filter) : Decidable (ParsesNoClose env buf s) :=
  List.decidableBAll _ _

theorem closeGrpcStream_not_active (env : Env) (s : Filter) :
    (closeGrpcStream env s).state ≠ .active := by
  rw [closeGrpcStream]
  split
  · assumption
  · simp only
    split
    · obtain h | h := call_cases .closeStream { s with state := .closing } env <;> rw [h]
      · exact State.noConfusion
      · rw [onRemoteClose_open State.noConfusion]
        exact State.noConfusion
    · exact State.noConfusion

/-- The loop goes on after every frame that leaves the filter active. -/
theorem dispatch_goes_on {env : Env} {s : Filter} {frame : WsFrame}
    (hactive : (dispatch env s frame).1.state = .active)
    (hfault : (dispatch env s frame).1.fault = none) : (dispatch env s frame).2 = true := by
  simp only [dispatch] at hactive hfault ⊢
  split_ifs at hactive hfault ⊢
  · show (Option.isNone _ && _ == _) = true
    rw [hactive, hfault]
    rfl
  · exact beq_iff_eq.mpr hactive
  · exact beq_iff_eq.mpr hactive
  · exact absurd hactive (closeGrpcStream_not_active env s)
  · exact beq_iff_eq.mpr hactive

/-- It goes on after no other. -/
theorem active_of_dispatch {env : Env} {s : Filter} {frame : WsFrame}
    (h : (dispatch env s frame).2 = true) : (dispatch env s frame).1.state = .active := by
  simp only [dispatch] at h ⊢
  split_ifs at h ⊢
  · exact beq_iff_eq.mp (Bool.and_eq_true_iff.mp h).2
  · exact beq_iff_eq.mp h
  · exact beq_iff_eq.mp h
  · exact beq_iff_eq.mp h

/-- Only the code behind the loop keeps bytes. -/
theorem scan_remainder (env : Env) (raw : Bytes) {s : Filter} (h : s.frameRemainder = []) :
    (frameDecoder.scan (dispatch env) s raw).1.frameRemainder = [] := by
  have hscan := frameDecoder.scan_settled (dispatch env) (P := fun s => s.frameRemainder = [])
    (Q := fun s => s.frameRemainder = [])
    (fun s frame h => by rw [dispatch_remainder]; exact ⟨fun _ => h, fun _ => h⟩) h raw
  generalize frameDecoder.scan (dispatch env) s raw = result at hscan ⊢
  cases hscan with
  | rest h => exact h
  | stopped h => exact h
  | fault h _ => exact h

theorem closeAtEnd_remainder (env : Env) (endStream : Bool) (result : Filter × Bool) :
    (closeAtEnd env endStream result).frameRemainder = result.1.frameRemainder := by
  obtain hend | hend := closeAtEnd_cases env endStream result
  · rw [hend]
  · rw [hend, closeGrpcStream_remainder]

/-- The first `uint32Max` bytes of what was left over and the buffer are the parsed frames,
what is kept, and what the call drops: nothing if the filter stays active, and otherwise all
that stands behind the frame at which it leaves the active state. -/
theorem processWebSocketData_conserves {env : Env} {buf : Bytes} {endStream : Bool} {s : Filter}
    (hactive : s.state = .active)
    (hfault : (processWebSocketData env buf endStream s).fault = none) :
    ∃ dropped,
      parsedBytes env buf s ++ (processWebSocketData env buf endStream s).frameRemainder ++
          dropped = (s.frameRemainder ++ buf).take uint32Max ∧
        (StaysActive env buf s ∧ dropped = [] ∨
          LeavesAtLast env buf s ∧
            (processWebSocketData env buf endStream s).frameRemainder = []) := by
  rw [processWebSocketData_eq env buf endStream hactive] at hfault ⊢
  rw [closeAtEnd_remainder, parsedBytes, StaysActive, LeavesAtLast, parsedFrames]
  generalize (s.frameRemainder ++ buf).take uint32Max = raw at hfault ⊢
  generalize hstart : { s with frameRemainder := [] } = start at hfault ⊢
  have htaken : (frameDecoder.steps (dispatch env) start raw).flatMap Step.taken ++
      (frameDecoder.scan (dispatch env) start raw).2.left = raw := Decoder.steps_taken start raw
  have hclear : (frameDecoder.scan (dispatch env) start raw).1.frameRemainder = [] :=
    scan_remainder env raw (by rw [← hstart])
  rcases hscan : frameDecoder.scan (dispatch env) start raw with ⟨t, r | r | ⟨e, r⟩⟩
  · rw [hscan] at htaken
    refine ⟨[], by rw [List.append_nil]; exact htaken, .inl ⟨fun step hmem => ?_, rfl⟩⟩
    exact active_of_dispatch (Decoder.steps_rest hscan step hmem)
  · rw [hscan] at htaken hfault hclear
    obtain ⟨init, last, hsteps, hinit, hstop⟩ := Decoder.steps_stopped hscan
    refine ⟨r, ?_, .inr ⟨⟨init, last, hsteps, fun step hmem => active_of_dispatch (hinit step hmem),
      fun hstill => ?_⟩, hclear⟩⟩
    · show _ ++ t.frameRemainder ++ r = raw
      rw [hclear, List.append_nil]
      exact htaken
    · have hgo := dispatch_goes_on hstill (hstop ▸ hfault)
      rw [hstop] at hgo
      cases hgo
  · rw [hscan] at hfault
    cases hfault

def activeFilter : Filter :=
  { config := ⟨[], []⟩, state := .active, grpcCallbacks := true, grpcStream := true }

/-- A Ping and the first byte of the next frame: the byte is kept. -/
theorem processWebSocketData_conserves_ping :
    ∃ dropped,
      parsedBytes .quiet [0x89, 0x00, 0x81] activeFilter ++
          (processWebSocketData .quiet [0x89, 0x00, 0x81] false activeFilter).frameRemainder ++
          dropped = [0x89, 0x00, 0x81].take uint32Max ∧
        (StaysActive .quiet [0x89, 0x00, 0x81] activeFilter ∧ dropped = [] ∨
          LeavesAtLast .quiet [0x89, 0x00, 0x81] activeFilter ∧
            (processWebSocketData .quiet [0x89, 0x00, 0x81] false
              activeFilter).frameRemainder = []) :=
  processWebSocketData_conserves rfl rfl

/-! ## What is lost -/

/-- The stream is closed from inside the first call of the filter. -/
def closesAtOnce : Env := ⟨fun trace => trace.length = 1⟩

def twoFrames : Bytes := [0x81, 0x00, 0x81, 0x00]

def longHeader : Bytes := [0x82, 0x7F, 0, 0, 1, 0, 0, 0, 0, 0]

/-- The header and the first `n` bytes of the payload. -/
def longBuffer (n : Nat) : Bytes := longHeader ++ List.replicate n 0

theorem length_longBuffer (n : Nat) : (longBuffer n).length = 10 + n := by
  rw [longBuffer, List.length_append, List.length_replicate]
  rfl

theorem longHeader_more {more : Bytes} (h : (longHeader ++ more).length ≤ uint32Max) :
    frameDecoder.attempt (longHeader ++ more) = .more := by
  have hheader : parseHeader longHeader =
      .inr ⟨{ fin := true, opcode := 0x02 }, 2 ^ 40, [0, 0, 0, 0], 10⟩ := rfl
  have hmissing : (longHeader ++ more).length < (UInt64.ofNat 10 + 2 ^ 40).toNat :=
    Nat.lt_of_le_of_lt h (by decide)
  show attemptFrame _ = _
  simp only [attemptFrame, parseFrame, parseHeader_append more hheader, parsePayload,
    if_pos hmissing]
  rfl

theorem longBuffer_more (n : Nat) :
    frameDecoder.attempt ((longBuffer n).take uint32Max) = .more := by
  have hlength : ((longBuffer n).take uint32Max).length ≤ uint32Max := List.length_take_le _ _
  have htake : (longBuffer n).take uint32Max =
      longHeader ++ (List.replicate n 0).take (uint32Max - longHeader.length) := by
    have hwhole : longHeader.take uint32Max = longHeader := List.take_of_length_le (by decide)
    rw [longBuffer, List.take_append, hwhole]
  rw [htake] at hlength ⊢
  exact longHeader_more hlength

/-- A call that finds no whole frame keeps what it has looked at. -/
theorem processWebSocketData_more (env : Env) {buf : Bytes} {s : Filter}
    (hactive : s.state = .active) (hclear : s.frameRemainder = [])
    (h : frameDecoder.attempt (buf.take uint32Max) = .more) :
    parsedFrames env buf s = [] ∧
      processWebSocketData env buf false s = { s with frameRemainder := buf.take uint32Max } := by
  rw [parsedFrames, processWebSocketData_eq env buf false hactive, hclear, List.nil_append]
  generalize buf.take uint32Max = raw at h ⊢
  refine ⟨Decoder.steps_more _ h, ?_⟩
  rw [Decoder.scan_more _ h]
  rfl

/-- A buffer beyond the clamp loses its end. -/
theorem longBuffer_lost {n : Nat} (h : uint32Max < 10 + n) :
    ParsesNoClose .quiet (longBuffer n) activeFilter ∧
      (processWebSocketData .quiet (longBuffer n) false activeFilter).fault = none ∧
      parsedBytes .quiet (longBuffer n) activeFilter ++
          (processWebSocketData .quiet (longBuffer n) false activeFilter).frameRemainder ≠
        activeFilter.frameRemainder ++ longBuffer n := by
  have hactive : activeFilter.state = .active := rfl
  obtain ⟨hframes, hkept⟩ := processWebSocketData_more .quiet hactive rfl (longBuffer_more n)
  rw [ParsesNoClose, parsedBytes, hframes, hkept]
  refine ⟨fun step hstep => absurd hstep List.not_mem_nil, rfl, ?_⟩
  intro heq
  have hlength := congrArg List.length heq
  have hshort : ((longBuffer n).take uint32Max).length ≤ uint32Max := List.length_take_le _ _
  simp only [List.flatMap_nil, List.nil_append, activeFilter, length_longBuffer] at hlength
  omega

/-- No call here parses a Close. The second of two frames is neither parsed nor kept when
the stream is closed inside the first, and of `2 ^ 32 + 9` bytes the last ten are lost. -/
theorem bytes_lost :
    (ParsesNoClose closesAtOnce twoFrames activeFilter ∧
      (processWebSocketData closesAtOnce twoFrames false activeFilter).fault = none ∧
      parsedBytes closesAtOnce twoFrames activeFilter ++
          (processWebSocketData closesAtOnce twoFrames false activeFilter).frameRemainder ≠
        activeFilter.frameRemainder ++ twoFrames) ∧
    (ParsesNoClose .quiet (longBuffer uint32Max) activeFilter ∧
      (processWebSocketData .quiet (longBuffer uint32Max) false activeFilter).fault = none ∧
      parsedBytes .quiet (longBuffer uint32Max) activeFilter ++
          (processWebSocketData .quiet (longBuffer uint32Max) false activeFilter).frameRemainder ≠
        activeFilter.frameRemainder ++ longBuffer uint32Max) := by
  refine ⟨⟨by decide, rfl, by decide⟩, longBuffer_lost ?_⟩
  exact Nat.lt_add_of_pos_left (Nat.succ_pos 9)

end Grpcgi.Envoy
