import Grpcgi.Data.Text
import Grpcgi.Wasm.FrameProto

/-!
# The WASM WebSocket filter

`WsBridgeStream` of `wasm/src/lib.rs` as a state machine: one function for each
callback, under the source's names. What the host answers is data: the bytes
that `get_downstream_data` and its siblings return are arguments, and
`Env.openGrpcStream` decides each call of `open_grpc_stream`. Every other host
call is appended to `calls`. A trap ends the instance.
-/

namespace Grpcgi.Wasm

inductive State where
  | awaitingUpgradeRequest
  | awaitingUpgradeResponse
  | active
  deriving DecidableEq, Repr

inductive Action where
  | Continue
  | Pause
  deriving DecidableEq, Repr

/-- The calls of the filter on its host. -/
inductive Call where
  /-- `open_grpc_stream` with the token it returned, or `none` for an error -/
  | openGrpcStream (cluster service method : Str) (initialMetadata : List (Str × Bytes))
      (result : Option UInt32)
  | sendGrpcStreamMessage (id : UInt32) (message : Bytes) (endStream : Bool)
  | closeGrpcStream (id : UInt32)
  | setDownstreamData (start size : Nat) (data : Bytes)
  deriving DecidableEq, Repr

structure WsBridgeStream where
  state : State := .awaitingUpgradeRequest
  downstreamBuf : Bytes := []
  grpcStreamId : Option UInt32 := none
  upgradeHeaders : List (Str × Str) := []
  grpcCluster : Str
  grpcService : Str
  calls : List Call := []
  trap : Option Trap := none
  deriving DecidableEq, Repr

/-- What the filter runs on. -/
structure Env where
  /-- the width of `usize` -/
  bits : Nat
  unicode : Unicode
  /-- the answer to a call of `open_grpc_stream` after the given calls -/
  openGrpcStream : List Call → Option UInt32

def WsBridgeStream.emit (c : Call) (s : WsBridgeStream) : WsBridgeStream :=
  { s with calls := s.calls ++ [c] }

/-! ## The upgrade request -/

/-- `find_subsequence`, for a needle that is not empty. -/
def findSubsequence (needle : Bytes) : Bytes → Option Nat
  | [] => none
  | b :: bs =>
    if needle.isPrefixOf (b :: bs) then some 0 else (findSubsequence needle bs).map (· + 1)

/-- `contains_subsequence`. -/
def containsSubsequence (haystack needle : Bytes) : Bool := (findSubsequence needle haystack).isSome

/-- What is found lies in the text. -/
theorem findSubsequence_le {needle p : Bytes} {i : Nat} (h : findSubsequence needle p = some i) :
    i + needle.length ≤ p.length := by
  induction p generalizing i with
  | nil => cases h
  | cons b p ih =>
      rw [findSubsequence] at h
      split at h
      · rename_i hprefix
        cases h
        rw [Nat.zero_add]
        exact (List.isPrefixOf_iff_prefix.mp hprefix).length_le
      · obtain ⟨j, hj, rfl⟩ := Option.map_eq_some_iff.mp h
        have hle := ih hj
        rw [List.length_cons]
        omega

/-- What is found stays found when more bytes arrive. -/
theorem findSubsequence_append {needle p : Bytes} {i : Nat}
    (h : findSubsequence needle p = some i) (q : Bytes) :
    findSubsequence needle (p ++ q) = some i := by
  induction p generalizing i with
  | nil => cases h
  | cons b p ih =>
      rw [List.cons_append, findSubsequence]
      rw [findSubsequence] at h
      split at h
      · rename_i hprefix
        have hmore : needle.isPrefixOf (b :: (p ++ q)) = true := by
          rw [List.isPrefixOf_iff_prefix] at hprefix ⊢
          exact hprefix.trans (List.prefix_append (b :: p) q)
        rw [if_pos hmore]
        exact h
      · rename_i hprefix
        obtain ⟨j, hj, rfl⟩ := Option.map_eq_some_iff.mp h
        -- an occurrence here would lie in front of the one that was found
        have hmore : ¬ needle.isPrefixOf (b :: (p ++ q)) = true := by
          rw [List.isPrefixOf_iff_prefix] at hprefix ⊢
          intro hlong
          have hle := findSubsequence_le hj
          refine hprefix (List.prefix_of_prefix_length_le hlong (List.prefix_append (b :: p) q) ?_)
          rw [List.length_cons]
          omega
        rw [if_neg hmore, ih hj]
        rfl

/-- The search finds the bytes wherever they stand in one piece. -/
theorem containsSubsequence_iff {haystack needle : Bytes} (hneedle : needle ≠ []) :
    containsSubsequence haystack needle = true ↔ needle <:+: haystack := by
  rw [containsSubsequence]
  induction haystack with
  | nil => simp [findSubsequence, hneedle]
  | cons b bs ih =>
      rw [findSubsequence]
      split
      · rename_i hprefix
        obtain ⟨after, hafter⟩ := List.isPrefixOf_iff_prefix.mp hprefix
        exact ⟨fun _ => ⟨[], after, hafter⟩, fun _ => rfl⟩
      · rename_i hprefix
        rw [Option.isSome_map, ih]
        constructor
        · rintro ⟨before, after, rfl⟩
          exact ⟨b :: before, after, rfl⟩
        · rintro ⟨before, after, h⟩
          cases before with
          | nil => exact absurd (List.isPrefixOf_iff_prefix.mpr ⟨after, h⟩) hprefix
          | cons c before => exact ⟨before, after, (List.cons.inj h).2⟩

def headerFields (u : Unicode) : List Str → List (Str × Str)
  | [] => []
  | line :: lines =>
    if line = [] then []
    else
      match splitFirst ':' line with
      | none => headerFields u lines
      | some (name, value) =>
        (u.lower (trimBoth isWhiteSpace name), trimBoth isWhiteSpace value) :: headerFields u lines

/-- `parse_http_request_headers`. -/
def parseHttpRequestHeaders (u : Unicode) (headerBlock : Bytes) : List (Str × Str) :=
  match utf8Decode headerBlock with
  | none => []
  | some text =>
    match splitCrlf text with
    | [] => []
    | requestLine :: lines =>
      let parts := splitn ' ' 3 requestLine
      (":method".toList, parts.getD 0 []) :: (":path".toList, parts.getD 1 []) ::
        headerFields u lines

def crlfCrlf : Bytes := [0x0D, 0x0A, 0x0D, 0x0A]

def http101 : Bytes := utf8Encode "HTTP/1.1 101".toList

/-! ## The callbacks -/

/-- The `match` over the opcode. The second component says whether the loop
goes on. -/
def dispatchFrame (s : WsBridgeStream) : UInt8 × Bytes → WsBridgeStream × Bool
  | (opcode, payload) =>
    if opcode = 0x01 ∨ opcode = 0x02 then
      let grpcMsg := encodeFrameProto payload (opcode == 0x02)
      match s.grpcStreamId with
      | some streamId => (s.emit (.sendGrpcStreamMessage streamId grpcMsg false), true)
      | none => (s, true)
    else if opcode = 0x08 then
      match s.grpcStreamId with
      | some streamId => ({ s.emit (.closeGrpcStream streamId) with grpcStreamId := none }, false)
      | none => (s, false)
    else if opcode = 0x09 then
      (s.emit (.setDownstreamData 0 0 (encodeWsFrame 0x0A payload)), true)
    else (s, true)

/-- `process_ws_frames`: the loop over `downstream_buf`. -/
def processWsFrames (bits : Nat) : Nat → WsBridgeStream → WsBridgeStream
  | 0, s => s
  | fuel + 1, s =>
    match parseWsFrame bits s.downstreamBuf with
    | .error e => { s with trap := some e }
    | .ok none => s
    | .ok (some (opcode, payload, consumed)) =>
      let s := { s with downstreamBuf := s.downstreamBuf.drop consumed }
      match dispatchFrame s (opcode, payload) with
      | (s, true) => processWsFrames bits fuel s
      | (s, false) => s

/-- `on_downstream_data`. -/
def onDownstreamData (env : Env) (chunk : Option Bytes) (s : WsBridgeStream) :
    Action × WsBridgeStream :=
  match s.state with
  | .awaitingUpgradeRequest =>
    match chunk with
    | none => (.Continue, s)
    | some chunk =>
      let s := { s with downstreamBuf := s.downstreamBuf ++ chunk }
      match findSubsequence crlfCrlf s.downstreamBuf with
      | none => (.Continue, s)
      | some stop =>
        let headerBlock := s.downstreamBuf.take (stop + 4)
        (.Continue, { s with
          upgradeHeaders := parseHttpRequestHeaders env.unicode headerBlock
          downstreamBuf := []
          state := .awaitingUpgradeResponse })
  | .awaitingUpgradeResponse => (.Continue, s)
  | .active =>
    match chunk with
    | none => (.Pause, s)
    | some chunk =>
      let s := { s with downstreamBuf := s.downstreamBuf ++ chunk }
      (.Pause, processWsFrames env.bits s.downstreamBuf.length s)

/-- `on_upstream_data`. -/
def onUpstreamData (env : Env) (data : Option Bytes) (s : WsBridgeStream) :
    Action × WsBridgeStream :=
  match s.state with
  | .awaitingUpgradeResponse =>
    match data with
    | none => (.Continue, s)
    | some data =>
      if containsSubsequence data http101 then
        let metaRefs := s.upgradeHeaders.map fun (k, v) => (k, utf8Encode v)
        let result := env.openGrpcStream s.calls
        let s := { s with state := .active }.emit
          (.openGrpcStream s.grpcCluster s.grpcService "Connect".toList metaRefs result)
        match result with
        | some tokenId => (.Continue, { s with grpcStreamId := some tokenId })
        | none => (.Continue, s)
      else (.Continue, s)
  | .active => (.Pause, s)
  | .awaitingUpgradeRequest => (.Continue, s)

/-- `on_grpc_stream_initial_metadata`. -/
def onGrpcStreamInitialMetadata (tokenId : UInt32) (s : WsBridgeStream) : WsBridgeStream :=
  { s with grpcStreamId := some tokenId }

/-- `on_grpc_stream_message`. -/
def onGrpcStreamMessage (env : Env) (data : Option Bytes) (s : WsBridgeStream) : WsBridgeStream :=
  match data with
  | none => s
  | some data =>
    match decodeFrameProto env.bits data with
    | .error e => { s with trap := some e }
    | .ok none => s
    | .ok (some { payload, binary }) =>
      let opcode := if binary then 0x02 else 0x01
      s.emit (.setDownstreamData 0 0 (encodeWsFrame opcode payload))

/-- `on_grpc_stream_close`. -/
def onGrpcStreamClose (s : WsBridgeStream) : WsBridgeStream :=
  let closeFrame := encodeWsFrame 0x08 [0x03, 0xE8]
  { s.emit (.setDownstreamData 0 0 closeFrame) with grpcStreamId := none }

/-- The callbacks of the host. -/
inductive Event where
  | downstreamData (chunk : Option Bytes)
  | upstreamData (data : Option Bytes)
  | grpcStreamInitialMetadata (tokenId : UInt32)
  | grpcStreamMessage (tokenId : UInt32) (data : Option Bytes)
  | grpcStreamClose (tokenId statusCode : UInt32)
  deriving DecidableEq, Repr

def step (env : Env) (s : WsBridgeStream) (e : Event) : WsBridgeStream :=
  if s.trap.isSome then s
  else
    match e with
    | .downstreamData chunk => (onDownstreamData env chunk s).2
    | .upstreamData data => (onUpstreamData env data s).2
    | .grpcStreamInitialMetadata tokenId => onGrpcStreamInitialMetadata tokenId s
    | .grpcStreamMessage _ data => onGrpcStreamMessage env data s
    | .grpcStreamClose _ _ => onGrpcStreamClose s

def run (env : Env) (s : WsBridgeStream) (events : List Event) : WsBridgeStream :=
  events.foldl (step env) s

/-! ## The loop as a scan -/

open Incremental (Decoder Exit)

/-- What a scan of the buffer leaves. -/
def leave : WsBridgeStream × Exit UInt8 Trap → WsBridgeStream
  | (s, .rest r) => { s with downstreamBuf := r }
  | (s, .stopped r) => { s with downstreamBuf := r }
  | (s, .fault e r) => { s with downstreamBuf := r, trap := some e }

/-- The dispatch neither reads nor changes the buffer. -/
theorem dispatchFrame_buf (s : WsBridgeStream) (frame : UInt8 × Bytes) (buf : Bytes) :
    dispatchFrame { s with downstreamBuf := buf } frame =
      ({ (dispatchFrame s frame).1 with downstreamBuf := buf }, (dispatchFrame s frame).2) := by
  obtain ⟨opcode, payload⟩ := frame
  simp only [dispatchFrame, WsBridgeStream.emit]
  split_ifs
  · cases hid : s.grpcStreamId <;> simp only [hid]
  · cases hid : s.grpcStreamId <;> simp only [hid]
  · rfl
  · rfl

/-- No frame changes the state, the buffer or the trap. -/
theorem dispatchFrame_keeps (s : WsBridgeStream) (frame : UInt8 × Bytes) :
    (dispatchFrame s frame).1.state = s.state ∧
      (dispatchFrame s frame).1.downstreamBuf = s.downstreamBuf ∧
      (dispatchFrame s frame).1.trap = s.trap := by
  obtain ⟨opcode, payload⟩ := frame
  simp only [dispatchFrame, WsBridgeStream.emit]
  split_ifs
  · cases s.grpcStreamId <;> exact ⟨rfl, rfl, rfl⟩
  · cases s.grpcStreamId <;> exact ⟨rfl, rfl, rfl⟩
  · exact ⟨rfl, rfl, rfl⟩
  · exact ⟨rfl, rfl, rfl⟩

/-- `process_ws_frames` is the generic scan of the frame decoder. -/
theorem processWsFrames_eq (bits fuel : Nat) (s : WsBridgeStream) (buf : Bytes)
    (hfuel : buf.length ≤ fuel) :
    processWsFrames bits fuel { s with downstreamBuf := buf } =
      leave ((wsDecoder bits).scan dispatchFrame { s with downstreamBuf := [] } buf) := by
  induction fuel generalizing s buf with
  | zero =>
      have hnil : buf = [] := List.length_eq_zero_iff.mp (Nat.le_zero.mp hfuel)
      subst hnil
      rw [Decoder.scan_nil]
      rfl
  | succ fuel ih =>
      have hattempt : (wsDecoder bits).attempt buf = attemptWsFrame bits buf := rfl
      simp only [attemptWsFrame] at hattempt
      rw [processWsFrames]
      cases hp : parseWsFrame bits buf with
      | error e =>
          rw [hp] at hattempt
          rw [Decoder.scan_fault _ hattempt]
          rfl
      | ok result =>
          rw [hp] at hattempt
          obtain _ | ⟨opcode, payload, consumed⟩ := result
          · rw [Decoder.scan_more _ hattempt]
            rfl
          · have hpos := (wsDecoder bits).size_pos hattempt
            have hlen : (buf.drop consumed).length ≤ fuel := by
              rw [List.length_drop]
              omega
            have hclear := dispatchFrame_buf s (opcode, payload) []
            simp only [dispatchFrame_buf s (opcode, payload) (buf.drop consumed)]
            generalize dispatchFrame s (opcode, payload) = result at hclear ⊢
            obtain ⟨t, _ | _⟩ := result
            · rw [Decoder.scan_stop hattempt hclear]
              rfl
            · rw [Decoder.scan_item hattempt hclear]
              exact ih t (buf.drop consumed) hlen

/-- A chunk in the active state resumes the scan with the bytes that are left. -/
theorem onDownstreamData_active {env : Env} {s : WsBridgeStream} (hstate : s.state = .active)
    (chunk : Bytes) :
    onDownstreamData env (some chunk) s =
      (.Pause, leave ((wsDecoder env.bits).scan dispatchFrame { s with downstreamBuf := [] }
        (s.downstreamBuf ++ chunk))) := by
  have hloop := processWsFrames_eq env.bits _ s (s.downstreamBuf ++ chunk) (Nat.le_refl _)
  simp only [hstate] at hloop
  simp only [onDownstreamData, hstate, hloop]

end Grpcgi.Wasm
