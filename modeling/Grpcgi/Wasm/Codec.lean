import Grpcgi.Incremental.Decoder
import Grpcgi.WebSocket.Frame

/-!
# The WebSocket codec of the WASM filter

`parse_ws_frame` and `encode_ws_frame` of `wasm/src/lib.rs`. The width of
`usize` is a parameter, and its arithmetic wraps as in a release build: the
filter is deployed on a target with 32 bits. A slice out of range is a trap, and
so is a loop that never ends.
-/

namespace Grpcgi.Wasm

/-- How a call can fail to return. -/
inductive Trap where
  /-- `buf[start..end]` with `end < start` -/
  | sliceOrder
  /-- `buf[start..end]` with `buf.len() < end` -/
  | sliceEnd
  | indexBounds
  | diverges
  deriving DecidableEq, Repr

/-- A value of type `usize`, or the result of an addition in it. -/
def usize (bits n : Nat) : Nat := n % 2 ^ bits

theorem usize_of_lt {bits n : Nat} (h : n < 2 ^ bits) : usize bits n = n := Nat.mod_eq_of_lt h

/-- `&buf[start..stop]`. -/
def slice (buf : Bytes) (start stop : Nat) : Except Trap Bytes :=
  if stop < start then .error .sliceOrder
  else if buf.length < stop then .error .sliceEnd
  else .ok ((buf.drop start).take (stop - start))

/-- `buf[i]`. -/
def index (buf : Bytes) (i : Nat) : Except Trap UInt8 :=
  match buf[i]? with
  | some b => .ok b
  | none => .error .indexBounds

/-! ## WebSocket frames -/

/-- The payload length and the offset after the length field, or `none` when it
has not arrived. -/
def payloadLen (bits : Nat) (buf : Bytes) (lenIndicator : Nat) : Option (Nat × Nat) :=
  if lenIndicator = 126 then
    if buf.length < 4 then none else some (beNat ((buf.drop 2).take 2), 4)
  else if lenIndicator = 127 then
    -- `as usize` keeps the low bits of the 64
    if buf.length < 10 then none else some (usize bits (beNat ((buf.drop 2).take 8)), 10)
  else some (lenIndicator, 2)

/-- The four bytes of the masking key. -/
def maskKey (buf : Bytes) (maskOffset : Nat) : Except Trap Bytes := do
  let k0 ← index buf maskOffset
  let k1 ← index buf (maskOffset + 1)
  let k2 ← index buf (maskOffset + 2)
  let k3 ← index buf (maskOffset + 3)
  return [k0, k1, k2, k3]

/-- What the header of a frame says, once it has arrived. -/
structure WsHeader where
  opcode : UInt8
  masked : Bool
  maskOffset : Nat
  payloadOffset : Nat
  total : Nat
  deriving DecidableEq, Repr

/-- The first part of `parse_ws_frame`: two bytes and the length field. -/
def wsHeader (bits : Nat) (buf : Bytes) : Option WsHeader :=
  if buf.length < 2 then none
  else
    let opcode := buf.getD 0 0 &&& 0x0F
    let masked := buf.getD 1 0 &&& 0x80 != 0
    match payloadLen bits buf (buf.getD 1 0 &&& 0x7F).toNat with
    | none => none
    | some (payloadLen, maskOffset) =>
      let payloadOffset := if masked then maskOffset + 4 else maskOffset
      some ⟨opcode, masked, maskOffset, payloadOffset, usize bits (payloadOffset + payloadLen)⟩

/-- The second part: slice the payload and unmask it. -/
def wsPayload (buf : Bytes) (header : WsHeader) : Except Trap Bytes := do
  let rawPayload ← slice buf header.payloadOffset header.total
  if header.masked then
    let key ← maskKey buf header.maskOffset
    return rawPayload.mapIdx fun i b => b ^^^ key.getD (i % 4) 0
  else return rawPayload

/-- `parse_ws_frame`: opcode, unmasked payload and total length of the frame. -/
def parseWsFrame (bits : Nat) (buf : Bytes) : Except Trap (Option (UInt8 × Bytes × Nat)) :=
  match wsHeader bits buf with
  | none => .ok none
  | some header =>
    if buf.length < header.total then .ok none
    else do
      let payload ← wsPayload buf header
      return some (header.opcode, payload, header.total)

/-- `encode_ws_frame`. -/
def encodeWsFrame (opcode : UInt8) (payload : Bytes) : Bytes :=
  let len := payload.length
  let lenBytes : Bytes :=
    if len < 126 then [UInt8.ofNat len]
    else if len ≤ 0xFFFF then 126 :: beBytes 2 len
    else 127 :: beBytes 8 len
  (0x80 ||| (opcode &&& 0x0F)) :: (lenBytes ++ payload)

/-! ## The frame parser as a decoder -/

theorem payloadLen_append {bits k : Nat} {buf : Bytes} {r : Nat × Nat} (more : Bytes)
    (h : payloadLen bits buf k = some r) : payloadLen bits (buf ++ more) k = some r := by
  simp only [payloadLen] at h ⊢
  have hlen : (buf ++ more).length = buf.length + more.length := List.length_append
  by_cases h16 : k = 126
  · rw [if_pos h16] at h ⊢
    by_cases hshort : buf.length < 4
    · rw [if_pos hshort] at h
      cases h
    · rw [if_neg hshort] at h
      rw [if_neg (by omega), drop_take_append more (by omega)]
      exact h
  · rw [if_neg h16] at h ⊢
    by_cases h64 : k = 127
    · rw [if_pos h64] at h ⊢
      by_cases hshort : buf.length < 10
      · rw [if_pos hshort] at h
        cases h
      · rw [if_neg hshort] at h
        rw [if_neg (by omega), drop_take_append more (by omega)]
        exact h
    · rw [if_neg h64] at h ⊢
      exact h

theorem payloadLen_offset {bits k : Nat} {buf : Bytes} {r : Nat × Nat}
    (h : payloadLen bits buf k = some r) : 2 ≤ r.2 := by
  simp only [payloadLen] at h
  split_ifs at h <;> cases h <;> omega

theorem wsHeader_append {bits : Nat} {buf : Bytes} {header : WsHeader} (more : Bytes)
    (h : wsHeader bits buf = some header) : wsHeader bits (buf ++ more) = some header := by
  simp only [wsHeader] at h ⊢
  by_cases hshort : buf.length < 2
  · rw [if_pos hshort] at h
    cases h
  · have hlen : (buf ++ more).length = buf.length + more.length := List.length_append
    have hget (i : Nat) (hi : i < 2) : (buf ++ more).getD i 0 = buf.getD i 0 :=
      List.getD_append _ _ _ _ (by omega)
    rw [if_neg hshort] at h
    rw [if_neg (by omega), hget 0 (by decide), hget 1 (by decide)]
    cases hp : payloadLen bits buf (buf.getD 1 0 &&& 0x7F).toNat with
    | none =>
        rw [hp] at h
        cases h
    | some r =>
        rw [hp] at h
        rw [payloadLen_append more hp]
        exact h

theorem wsHeader_offsets {bits : Nat} {buf : Bytes} {header : WsHeader}
    (h : wsHeader bits buf = some header) :
    2 ≤ header.payloadOffset ∧
      (header.masked = true → header.maskOffset + 4 = header.payloadOffset) := by
  unfold wsHeader at h
  split at h
  · cases h
  · simp only at h
    split at h
    · cases h
    · rename_i len offset hp
      have hoffset := payloadLen_offset hp
      cases h
      simp only at hoffset ⊢
      constructor
      · split <;> omega
      · intro hmasked
        rw [if_pos hmasked]

theorem maskKey_eq (buf : Bytes) (offset : Nat) (h : offset + 4 ≤ buf.length) :
    maskKey buf offset = .ok ((buf.drop offset).take 4) := by
  have hindex (i : Nat) (hi : i < buf.length) : index buf i = .ok buf[i] := by
    simp only [index, List.getElem?_eq_getElem hi]
  have htake : (buf.drop offset).take 4 =
      [buf[offset], buf[offset + 1], buf[offset + 2], buf[offset + 3]] := by
    rw [List.drop_eq_getElem_cons (by omega), List.drop_eq_getElem_cons (by omega),
      List.drop_eq_getElem_cons (by omega), List.drop_eq_getElem_cons (by omega)]
    rfl
  simp only [maskKey, hindex _ (show offset < buf.length by omega),
    hindex _ (show offset + 1 < buf.length by omega),
    hindex _ (show offset + 2 < buf.length by omega),
    hindex _ (show offset + 3 < buf.length by omega), htake]
  rfl

/-- The payload of a frame that has arrived: a slice, unmasked with its key.
Only a total that has wrapped below the payload's start makes the slice trap. -/
theorem wsPayload_eq {bits : Nat} {buf : Bytes} {header : WsHeader}
    (hh : wsHeader bits buf = some header) (harrived : header.total ≤ buf.length) :
    wsPayload buf header =
      if header.total < header.payloadOffset then .error .sliceOrder
      else .ok (
        let raw := (buf.drop header.payloadOffset).take (header.total - header.payloadOffset)
        if header.masked then maskWith ((buf.drop header.maskOffset).take 4) raw else raw) := by
  have hmask := (wsHeader_offsets hh).2
  simp only [wsPayload, slice]
  by_cases horder : header.total < header.payloadOffset
  · rw [if_pos horder, if_pos horder]
    rfl
  · rw [if_neg horder, if_neg horder, if_neg (Nat.not_lt_of_le harrived)]
    cases hmasked : header.masked with
    | false => rfl
    | true =>
        have hkey := hmask hmasked
        rw [maskKey_eq buf header.maskOffset (by omega)]
        rfl

/-- The parser as one attempt at a frame. -/
def attemptWsFrame (bits : Nat) (buf : Bytes) : Incremental.Attempt Trap (UInt8 × Bytes) :=
  match parseWsFrame bits buf with
  | .error e => .fault e
  | .ok none => .more
  | .ok (some (opcode, payload, consumed)) => .item (opcode, payload) consumed

/-- Once the header and `total` bytes are there, the answer is settled. -/
theorem attemptWsFrame_of_header {bits : Nat} {buf : Bytes} {header : WsHeader}
    (hh : wsHeader bits buf = some header) (harrived : header.total ≤ buf.length) :
    attemptWsFrame bits buf =
      match wsPayload buf header with
      | .error e => .fault e
      | .ok payload => .item (header.opcode, payload) header.total := by
  simp only [attemptWsFrame, parseWsFrame, hh, if_neg (Nat.not_lt_of_le harrived)]
  cases wsPayload buf header <;> rfl

theorem wsPayload_append {bits : Nat} {buf : Bytes} {header : WsHeader} (more : Bytes)
    (hh : wsHeader bits buf = some header) (harrived : header.total ≤ buf.length) :
    wsPayload (buf ++ more) header = wsPayload buf header := by
  have hmask := (wsHeader_offsets hh).2
  have harrived' : header.total ≤ (buf ++ more).length := by
    rw [List.length_append]
    omega
  rw [wsPayload_eq (wsHeader_append more hh) harrived', wsPayload_eq hh harrived]
  by_cases horder : header.total < header.payloadOffset
  · rw [if_pos horder, if_pos horder]
  · rw [if_neg horder, if_neg horder, drop_take_append more (by omega)]
    cases hmasked : header.masked with
    | false => rfl
    | true =>
        have hkey := hmask hmasked
        rw [drop_take_append more (by omega)]

/-- An answer other than "more" comes from a header and `total` bytes. -/
theorem attemptWsFrame_settled {bits : Nat} {buf : Bytes}
    (h : attemptWsFrame bits buf ≠ .more) :
    ∃ header, wsHeader bits buf = some header ∧ header.total ≤ buf.length := by
  simp only [attemptWsFrame, parseWsFrame] at h
  cases hh : wsHeader bits buf with
  | none => simp [hh] at h
  | some header =>
      refine ⟨header, rfl, ?_⟩
      by_contra hshort
      simp [hh, if_pos (Nat.lt_of_not_le hshort)] at h

theorem attemptWsFrame_append {bits : Nat} {buf : Bytes} (more : Bytes)
    (h : attemptWsFrame bits buf ≠ .more) :
    attemptWsFrame bits (buf ++ more) = attemptWsFrame bits buf := by
  obtain ⟨header, hh, harrived⟩ := attemptWsFrame_settled h
  have harrived' : header.total ≤ (buf ++ more).length := by
    rw [List.length_append]
    omega
  rw [attemptWsFrame_of_header (wsHeader_append more hh) harrived',
    attemptWsFrame_of_header hh harrived, wsPayload_append more hh harrived]

theorem attemptWsFrame_item {bits : Nat} {buf : Bytes} {a : UInt8 × Bytes} {n : Nat}
    (h : attemptWsFrame bits buf = .item a n) : 2 ≤ n ∧ n ≤ buf.length := by
  obtain ⟨header, hh, harrived⟩ := attemptWsFrame_settled (by rw [h]; simp)
  have hoffset := (wsHeader_offsets hh).1
  rw [attemptWsFrame_of_header hh harrived, wsPayload_eq hh harrived] at h
  by_cases horder : header.total < header.payloadOffset
  · rw [if_pos horder] at h
    cases h
  · rw [if_neg horder] at h
    cases h
    omega

/-- `parse_ws_frame` never answers from bytes that could still change, whatever
the width of `usize`. -/
def wsDecoder (bits : Nat) : Incremental.Decoder UInt8 Trap (UInt8 × Bytes) where
  attempt := attemptWsFrame bits
  attempt_nil := rfl
  size_pos := fun h => Nat.lt_of_lt_of_le (by decide) (attemptWsFrame_item h).1
  size_le := fun h => (attemptWsFrame_item h).2
  item_append := fun more h => (attemptWsFrame_append more (by rw [h]; simp)).trans h
  fault_append := fun more h => (attemptWsFrame_append more (by rw [h]; simp)).trans h

/-! ## The parser reads RFC 6455 frames -/

open WebSocket (Frame LengthForm)

/-- The view of a frame that the filter works on. -/
def wsView (f : Frame) : UInt8 × Bytes := (UInt8.ofNat f.opcode.val, f.payload)

theorem payloadLen_encode {bits : Nat} (f : Frame) (cs : Bytes)
    (hwidth : f.encode.length < 2 ^ bits) :
    payloadLen bits (f.encode ++ cs) (f.byte1 &&& 0x7F).toNat =
      some (f.payload.length, 2 + f.form.width) := by
  have hlen := f.length_encode
  have hfits := f.fits
  have harrived : 2 + f.form.width ≤ (f.encode ++ cs).length := by
    rw [List.length_append]
    omega
  have htake := f.take_lengthBytes cs
  have hk := f.byte1_indicator
  generalize (f.byte1 &&& 0x7F).toNat = k at hk ⊢
  simp only [payloadLen]
  cases hform : f.form with
  | short =>
      simp only [hform, LengthForm.bound, LengthForm.indicator] at hfits hk
      rw [if_neg (by omega), if_neg (by omega), hk]
      rfl
  | medium =>
      have hvalue := f.beNat_lengthBytes (by rw [hform]; decide)
      simp only [hform, LengthForm.width, LengthForm.indicator] at harrived htake hk ⊢
      rw [if_pos hk, if_neg (by omega), htake, hvalue]
  | long =>
      have hvalue := f.beNat_lengthBytes (by rw [hform]; decide)
      simp only [hform, LengthForm.width, LengthForm.indicator] at harrived htake hk ⊢
      rw [if_neg (by omega), if_pos hk, if_neg (by omega), htake, hvalue,
        usize_of_lt (by omega)]

theorem wsHeader_encode {bits : Nat} (f : Frame) (cs : Bytes)
    (hwidth : f.encode.length < 2 ^ bits) :
    wsHeader bits (f.encode ++ cs) =
      some ⟨UInt8.ofNat f.opcode.val, f.mask.isSome, 2 + f.form.width,
        2 + f.form.width + f.keyBytes.length, f.encode.length⟩ := by
  have hlen := f.length_encode
  have hget0 : (f.encode ++ cs).getD 0 0 = f.byte0 := rfl
  have hget1 : (f.encode ++ cs).getD 1 0 = f.byte1 := rfl
  have harrived : ¬ (f.encode ++ cs).length < 2 := by
    rw [List.length_append]
    omega
  have hoffset : (if f.mask.isSome = true then 2 + f.form.width + 4 else 2 + f.form.width) =
      2 + f.form.width + f.keyBytes.length := by
    rw [f.length_keyBytes]
    split <;> rfl
  simp only [wsHeader, if_neg harrived, hget0, hget1, payloadLen_encode f cs hwidth,
    f.byte1_masked, f.byte0_opcode, hoffset]
  rw [hlen, usize_of_lt (by omega)]

/-- Every frame that fits the address space is parsed as itself. -/
theorem attemptWsFrame_encode {bits : Nat} (f : Frame) (hwidth : f.encode.length < 2 ^ bits) :
    (wsDecoder bits).Reads Frame.encode wsView f := by
  intro cs
  have hlen := f.length_encode
  have hh := wsHeader_encode f cs hwidth
  have harrived : f.encode.length ≤ (f.encode ++ cs).length := by
    rw [List.length_append]
    omega
  have hraw : ((f.encode ++ cs).drop (2 + f.form.width + f.keyBytes.length)).take
      (f.encode.length - (2 + f.form.width + f.keyBytes.length)) = f.wirePayload := by
    have hsize : f.encode.length - (2 + f.form.width + f.keyBytes.length) =
        f.wirePayload.length := by
      rw [f.length_wirePayload]
      omega
    rw [hsize, ← List.drop_drop, Frame.drop_length, List.drop_left, List.take_left]
  have hpayload : wsPayload (f.encode ++ cs) ⟨UInt8.ofNat f.opcode.val, f.mask.isSome,
      2 + f.form.width, 2 + f.form.width + f.keyBytes.length, f.encode.length⟩ =
        .ok f.payload := by
    rw [wsPayload_eq hh harrived, if_neg (by simp only; omega)]
    simp only [hraw, Frame.drop_length]
    congr 1
    simp only [Frame.wirePayload, Frame.keyBytes]
    cases hmask : f.mask with
    | none => rfl
    | some key =>
        simp only [Option.isSome_some, if_true]
        rw [List.take_left' List.length_ofFn, maskWith_maskWith]
  have hattempt := attemptWsFrame_of_header hh harrived
  rw [hpayload] at hattempt
  exact hattempt

end Grpcgi.Wasm
