import Grpcgi.Incremental.Decoder
import Grpcgi.WebSocket.Frame

/-!
# The frame codec of the native filter

`parseFrame`, `encodeFrame` and `buildCloseFrame` of
`ws_grpc_bridge_filter.cc`. Lengths are `uint64_t`: the declared length of a
frame is assembled by shifting, and the total is added modulo `2^64`. What C++
would do outside its defined behaviour is a `Fault`.

The parser is an incremental decoder (`frameDecoder`), and it reads every RFC
6455 frame whatever follows it (`parseFrame_encode`).
-/

namespace Grpcgi.Envoy

open WebSocket (Frame LengthForm)
open Incremental (Attempt Decoder)

def kOpcodeText : UInt8 := 0x01
def kOpcodeBinary : UInt8 := 0x02
def kOpcodeClose : UInt8 := 0x08
def kOpcodePing : UInt8 := 0x09
def kOpcodePong : UInt8 := 0x0A

def kCloseNormalClosure : Nat := 1000
def kWsMinHeaderBytes : Nat := 2

/-- `std::vector<uint8_t>::max_size()`. A `resize` beyond it throws. -/
def kVectorMaxSize : Nat := 2 ^ 63 - 1

/-- Where the C++ code leaves its intended behaviour: an exception from
`resize`, a read outside the buffer, or one of its three assertions. -/
inductive Fault where
  | lengthError
  | outOfBounds
  | assertCallbacksUnset
  | assertActive
  | assertStream
  deriving DecidableEq, Repr

structure WsFrame where
  fin : Bool := false
  opcode : UInt8 := 0
  payload : Bytes := []
  consumed : Nat := 0
  complete : Bool := false
  deriving DecidableEq, Repr

/-- The payload length and the header length before the masking key, or `none`
when the length field has not arrived. -/
def payloadLength (data : Bytes) (len7 : UInt8) : Option (UInt64 × Nat) :=
  if len7 < 126 then
    some (len7.toUInt64, kWsMinHeaderBytes)
  else if len7 = 126 then
    if data.length < kWsMinHeaderBytes + 2 then none
    else some ((data.getD 2 0).toUInt64 <<< 8 ||| (data.getD 3 0).toUInt64, kWsMinHeaderBytes + 2)
  else
    if data.length < kWsMinHeaderBytes + 8 then none
    else some (((data.drop kWsMinHeaderBytes).take 8).foldl
      (fun payloadLen b => payloadLen <<< 8 ||| b.toUInt64) 0, kWsMinHeaderBytes + 8)

/-- The masking key and the full header length. An unmasked frame gets the zero
key, so that unmasking it changes nothing. -/
def maskKey (data : Bytes) (headerLen : Nat) (masked : Bool) : Option (Bytes × Nat) :=
  if masked then
    if data.length < headerLen + 4 then none
    else some ((data.drop headerLen).take 4, headerLen + 4)
  else some ([0, 0, 0, 0], headerLen)

/-- Size the payload vector, then copy and unmask `payloadLen` bytes. -/
def unmaskPayload (data : Bytes) (headerLen payloadLen : Nat) (key : Bytes) :
    Except Fault Bytes :=
  if kVectorMaxSize < payloadLen then .error .lengthError
  else if data.length < headerLen + payloadLen then .error .outOfBounds
  else .ok (((data.drop headerLen).take payloadLen).mapIdx
    fun i b => b ^^^ key.getD (i &&& 3) 0)

/-- What the header of a frame says, once it has arrived whole. -/
structure ParsedHeader where
  result : WsFrame
  payloadLen : UInt64
  key : Bytes
  headerLen : Nat

/-- The first part of `parseFrame`: two bytes, the length field, the key. A
left result is an early return that asks for more data. -/
def parseHeader (data : Bytes) : WsFrame ⊕ ParsedHeader :=
  if data.length < kWsMinHeaderBytes then .inl {}
  else
    let byte0 := data.getD 0 0
    let byte1 := data.getD 1 0
    let result : WsFrame := { fin := byte0 &&& 0x80 != 0, opcode := byte0 &&& 0x0F }
    match payloadLength data (byte1 &&& 0x7F) with
    | none => .inl result
    | some (payloadLen, headerLen) =>
      match maskKey data headerLen (byte1 &&& 0x80 != 0) with
      | none => .inl result
      | some (key, headerLen) => .inr ⟨result, payloadLen, key, headerLen⟩

/-- The second part: the 64-bit total, the completeness test and the copy. -/
def parsePayload (data : Bytes) (header : ParsedHeader) : Except Fault WsFrame :=
  let frameTotal := UInt64.ofNat header.headerLen + header.payloadLen
  if data.length < frameTotal.toNat then .ok header.result
  else
    match unmaskPayload data header.headerLen header.payloadLen.toNat header.key with
    | .error e => .error e
    | .ok payload =>
      .ok { header.result with payload, consumed := frameTotal.toNat, complete := true }

/-- Parse one frame from `data`. A result that is not `complete` asks for more. -/
def parseFrame (data : Bytes) : Except Fault WsFrame :=
  match parseHeader data with
  | .inl result => .ok result
  | .inr header => parsePayload data header

/-- One server-to-client frame: FIN set, never masked. -/
def encodeFrame (opcode : UInt8) (payload : Bytes) : Bytes :=
  let len := payload.length
  let lenBytes : Bytes :=
    if len < 126 then [UInt8.ofNat len]
    else if len < 65536 then
      [0x7E, UInt8.ofNat ((len >>> 8) &&& 0xFF), UInt8.ofNat (len &&& 0xFF)]
    else
      0x7F :: (List.range 8).map fun i => UInt8.ofNat ((len >>> (56 - 8 * i)) &&& 0xFF)
  (0x80 ||| (opcode &&& 0x0F)) :: (lenBytes ++ payload)

def buildCloseFrame : Bytes :=
  encodeFrame kOpcodeClose
    [UInt8.ofNat ((kCloseNormalClosure >>> 8) &&& 0xFF), UInt8.ofNat (kCloseNormalClosure &&& 0xFF)]

example : buildCloseFrame = [0x88, 0x02, 0x03, 0xE8] := by decide

/-! ## More bytes do not change an answer -/

theorem payloadLength_append {data : Bytes} {len7 : UInt8} {r : UInt64 × Nat} (more : Bytes)
    (h : payloadLength data len7 = some r) : payloadLength (data ++ more) len7 = some r := by
  simp only [payloadLength] at h ⊢
  split_ifs at h with hshort hmedium hlen hlen
  · simpa [hshort] using h
  · have hlen' : ¬ (data ++ more).length < kWsMinHeaderBytes + 2 := by
      rw [List.length_append]
      omega
    have hget (i : Nat) (hi : i < 4) : (data ++ more).getD i 0 = data.getD i 0 :=
      List.getD_append _ _ _ _ (by simp only [kWsMinHeaderBytes] at hlen; omega)
    rw [if_neg hshort, if_pos hmedium, if_neg hlen', hget 2 (by decide), hget 3 (by decide)]
    exact h
  · have hlen' : ¬ (data ++ more).length < kWsMinHeaderBytes + 8 := by
      rw [List.length_append]
      omega
    rw [if_neg hshort, if_neg hmedium, if_neg hlen', drop_take_append more (by omega)]
    exact h

theorem maskKey_append {data : Bytes} {headerLen : Nat} {masked : Bool} {r : Bytes × Nat}
    (more : Bytes) (h : maskKey data headerLen masked = some r) :
    maskKey (data ++ more) headerLen masked = some r := by
  simp only [maskKey] at h ⊢
  split_ifs at h with hmasked hlen
  · have hlen' : ¬ (data ++ more).length < headerLen + 4 := by
      rw [List.length_append]
      omega
    rw [if_pos hmasked, if_neg hlen', drop_take_append more (by omega)]
    exact h
  · rw [if_neg hmasked]
    exact h

/-- The two lengths that `parseFrame` compares. -/
theorem payloadLength_header {data : Bytes} {len7 : UInt8} {payloadLen : UInt64} {headerLen : Nat}
    (h : payloadLength data len7 = some (payloadLen, headerLen)) :
    2 ≤ headerLen ∧ headerLen ≤ 10 := by
  unfold payloadLength kWsMinHeaderBytes at h
  split_ifs at h <;> simp only [Option.some.injEq, Prod.mk.injEq] at h <;> omega

theorem maskKey_header {data key : Bytes} {headerLen h' : Nat} {masked : Bool}
    (h : maskKey data headerLen masked = some (key, h')) :
    headerLen ≤ h' ∧ h' ≤ headerLen + 4 := by
  simp only [maskKey] at h
  split_ifs at h <;> simp only [Option.some.injEq, Prod.mk.injEq] at h <;> omega

theorem parseHeader_result {data : Bytes} {header : ParsedHeader}
    (h : parseHeader data = .inr header) :
    header.result.complete = false ∧ 2 ≤ header.headerLen ∧ header.headerLen ≤ 14 := by
  unfold parseHeader at h
  split at h
  · cases h
  · simp only at h
    split at h
    · cases h
    · rename_i payloadLen headerLen hlen
      split at h
      · cases h
      · rename_i key headerLen' hkey
        cases h
        have h1 := payloadLength_header hlen
        have h2 := maskKey_header hkey
        exact ⟨rfl, by simp only; omega, by simp only; omega⟩

theorem parseHeader_incomplete {data : Bytes} {result : WsFrame}
    (h : parseHeader data = .inl result) : result.complete = false := by
  unfold parseHeader at h
  split at h
  · cases h
    rfl
  · simp only at h
    split at h
    · cases h
      rfl
    · split at h <;> cases h
      rfl

theorem parseHeader_append {data : Bytes} {header : ParsedHeader} (more : Bytes)
    (h : parseHeader data = .inr header) : parseHeader (data ++ more) = .inr header := by
  unfold parseHeader at h ⊢
  split at h
  · cases h
  · rename_i hlen
    have hlen' : ¬ (data ++ more).length < kWsMinHeaderBytes := by
      rw [List.length_append]
      omega
    have hget (i : Nat) (hi : i < 2) : (data ++ more).getD i 0 = data.getD i 0 :=
      List.getD_append _ _ _ _ (by simp only [kWsMinHeaderBytes] at hlen; omega)
    rw [if_neg hlen', hget 0 (by decide), hget 1 (by decide)]
    simp only at h ⊢
    split at h
    · cases h
    · rename_i payloadLen headerLen hpl
      rw [payloadLength_append more hpl]
      split at h
      · cases h
      · rename_i key headerLen' hkey
        simp only [maskKey_append more hkey]
        exact h

theorem unmaskPayload_append {data key payload : Bytes} {headerLen payloadLen : Nat}
    (more : Bytes) (h : unmaskPayload data headerLen payloadLen key = .ok payload) :
    unmaskPayload (data ++ more) headerLen payloadLen key = .ok payload := by
  simp only [unmaskPayload] at h ⊢
  split_ifs at h with hmax hlen
  have hlen' : ¬ (data ++ more).length < headerLen + payloadLen := by
    rw [List.length_append]
    omega
  rw [if_neg hmax, if_neg hlen', drop_take_append more (by omega)]
  exact h

/-- The exact sum of the two lengths of a header, or the wrapped one. -/
theorem frameTotal_toNat (headerLen : Nat) (payloadLen : UInt64) (h : headerLen ≤ 14) :
    (UInt64.ofNat headerLen + payloadLen).toNat = (headerLen + payloadLen.toNat) % 2 ^ 64 := by
  rw [UInt64.toNat_add, UInt64.toNat_ofNat', Nat.mod_eq_of_lt (by omega : headerLen < 2 ^ 64)]

/-- Past the completeness test, the only fault is an absurd length whose sum
with the header wrapped around; otherwise the frame is inside the buffer. -/
theorem unmaskPayload_total {data : Bytes} (key : Bytes) {headerLen : Nat} {payloadLen : UInt64}
    (hheader : headerLen ≤ 14)
    (htotal : (UInt64.ofNat headerLen + payloadLen).toNat ≤ data.length) :
    (unmaskPayload data headerLen payloadLen.toNat key = .error .lengthError ∧
        kVectorMaxSize < payloadLen.toNat) ∨
      ∃ payload, unmaskPayload data headerLen payloadLen.toNat key = .ok payload ∧
        (UInt64.ofNat headerLen + payloadLen).toNat = headerLen + payloadLen.toNat ∧
        payload.length = payloadLen.toNat := by
  rw [frameTotal_toNat _ _ hheader] at htotal ⊢
  by_cases hmax : kVectorMaxSize < payloadLen.toNat
  · exact .inl ⟨by simp only [unmaskPayload, if_pos hmax], hmax⟩
  · have hexact : (headerLen + payloadLen.toNat) % 2 ^ 64 = headerLen + payloadLen.toNat := by
      apply Nat.mod_eq_of_lt
      simp only [kVectorMaxSize] at hmax
      omega
    rw [hexact] at htotal ⊢
    refine .inr ⟨_, by rw [unmaskPayload, if_neg hmax, if_neg (by omega)], rfl, ?_⟩
    rw [List.length_mapIdx, List.length_take, List.length_drop]
    omega

/-- The parser as one attempt at a frame. -/
def attemptFrame (data : Bytes) : Attempt Fault WsFrame :=
  match parseFrame data with
  | .error e => .fault e
  | .ok frame => if frame.complete then .item frame frame.consumed else .more

/-- A successful attempt: the header is whole and so is the payload. -/
theorem attemptFrame_item {data : Bytes} {frame : WsFrame} {n : Nat}
    (h : attemptFrame data = .item frame n) :
    frame.complete = true ∧ frame.consumed = n ∧
      ∃ header payload, parseHeader data = .inr header ∧
        n = header.headerLen + header.payloadLen.toNat ∧ n ≤ data.length ∧
        unmaskPayload data header.headerLen header.payloadLen.toNat header.key = .ok payload ∧
        frame = { header.result with payload, consumed := n, complete := true } := by
  simp only [attemptFrame, parseFrame] at h
  cases hh : parseHeader data with
  | inl result =>
      simp only [hh, parseHeader_incomplete hh, Bool.false_eq_true, if_false] at h
      cases h
  | inr header =>
      obtain ⟨hresult, _, hheader⟩ := parseHeader_result hh
      simp only [hh, parsePayload] at h
      by_cases hlen : data.length < (UInt64.ofNat header.headerLen + header.payloadLen).toNat
      · simp only [if_pos hlen, hresult, Bool.false_eq_true, if_false] at h
        cases h
      · simp only [if_neg hlen] at h
        rcases unmaskPayload_total header.key hheader (Nat.le_of_not_lt hlen) with
          ⟨hfault, _⟩ | ⟨payload, hok, hexact, _⟩
        · simp only [hfault] at h
          cases h
        · simp only [hok, if_true] at h
          cases h
          exact ⟨rfl, rfl, header, payload, rfl, hexact, Nat.le_of_not_lt hlen, hok, rfl⟩

theorem unmaskPayload_bound {data key payload : Bytes} {headerLen payloadLen : Nat}
    (h : unmaskPayload data headerLen payloadLen key = .ok payload) :
    payloadLen ≤ kVectorMaxSize ∧ headerLen + payloadLen ≤ data.length := by
  simp only [unmaskPayload] at h
  split_ifs at h with hmax hlen
  omega

theorem attemptFrame_of_header {data : Bytes} {header : ParsedHeader} {payload : Bytes}
    (hh : parseHeader data = .inr header)
    (hok : unmaskPayload data header.headerLen header.payloadLen.toNat header.key = .ok payload) :
    attemptFrame data =
      .item { header.result with
        payload, consumed := header.headerLen + header.payloadLen.toNat, complete := true }
        (header.headerLen + header.payloadLen.toNat) := by
  obtain ⟨_, _, hheader⟩ := parseHeader_result hh
  obtain ⟨hsmall, hlen⟩ := unmaskPayload_bound hok
  have htotal : (UInt64.ofNat header.headerLen + header.payloadLen).toNat =
      header.headerLen + header.payloadLen.toNat := by
    rw [frameTotal_toNat _ _ hheader]
    apply Nat.mod_eq_of_lt
    simp only [kVectorMaxSize] at hsmall
    omega
  simp only [attemptFrame, parseFrame, hh, parsePayload, htotal,
    if_neg (Nat.not_lt_of_le hlen), hok, if_true]

/-- The only fault of the parser: a length whose sum with the header wraps. -/
theorem attemptFrame_fault {data : Bytes} {e : Fault} (h : attemptFrame data = .fault e) :
    e = .lengthError ∧ ∃ header, parseHeader data = .inr header ∧
      (UInt64.ofNat header.headerLen + header.payloadLen).toNat ≤ data.length ∧
      kVectorMaxSize < header.payloadLen.toNat := by
  simp only [attemptFrame, parseFrame] at h
  cases hh : parseHeader data with
  | inl result =>
      simp only [hh, parseHeader_incomplete hh, Bool.false_eq_true, if_false] at h
      cases h
  | inr header =>
      obtain ⟨hresult, _, hheader⟩ := parseHeader_result hh
      simp only [hh, parsePayload] at h
      by_cases hlen : data.length < (UInt64.ofNat header.headerLen + header.payloadLen).toNat
      · simp only [if_pos hlen, hresult, Bool.false_eq_true, if_false] at h
        cases h
      · simp only [if_neg hlen] at h
        rcases unmaskPayload_total header.key hheader (Nat.le_of_not_lt hlen) with
          ⟨hfault, hmax⟩ | ⟨payload, hok, _⟩
        · simp only [hfault] at h
          cases h
          exact ⟨rfl, header, rfl, Nat.le_of_not_lt hlen, hmax⟩
        · simp only [hok, if_true] at h
          cases h

/-- `parseFrame` never answers from bytes that could still change. -/
def frameDecoder : Decoder UInt8 Fault WsFrame where
  attempt := attemptFrame
  attempt_nil := rfl
  size_pos := by
    intro data frame n h
    obtain ⟨_, _, header, _, hh, hn, _⟩ := attemptFrame_item h
    have := (parseHeader_result hh).2.1
    omega
  size_le := by
    intro data frame n h
    obtain ⟨_, _, _, _, _, _, hle, _⟩ := attemptFrame_item h
    exact hle
  item_append := by
    intro data frame n more h
    obtain ⟨_, _, header, payload, hh, hn, _, hok, hframe⟩ := attemptFrame_item h
    rw [attemptFrame_of_header (parseHeader_append more hh) (unmaskPayload_append more hok),
      hframe, hn]
  fault_append := by
    intro data e more h
    obtain ⟨rfl, header, hh, hlen, hmax⟩ := attemptFrame_fault h
    have hlen' : ¬ (data ++ more).length <
        (UInt64.ofNat header.headerLen + header.payloadLen).toNat := by
      rw [List.length_append]
      omega
    have hfault : unmaskPayload (data ++ more) header.headerLen header.payloadLen.toNat header.key =
        .error .lengthError := by simp only [unmaskPayload, if_pos hmax]
    simp only [attemptFrame, parseFrame, parseHeader_append more hh, parsePayload,
      if_neg hlen', hfault]

/-! ## The parser reads RFC 6455 frames -/

theorem shift_or (acc : UInt64) (b : UInt8) :
    (acc <<< 8 ||| b.toUInt64).toNat = (acc.toNat * 256 + b.toNat) % 2 ^ 64 := by
  have hb := b.toNat_lt
  have hshift : (acc <<< 8).toNat = (acc.toNat % 2 ^ 56) <<< 8 := by
    rw [UInt64.toNat_shiftLeft, Nat.shiftLeft_eq, Nat.shiftLeft_eq]
    simp only [UInt64.reduceToNat, Nat.reduceMod, Nat.reducePow]
    omega
  rw [UInt64.toNat_or, hshift, UInt8.toNat_toUInt64,
    ← Nat.shiftLeft_add_eq_or_of_lt (by omega), Nat.shiftLeft_eq]
  omega

/-- The shift loop of the 64-bit length field. -/
theorem shift_foldl (bs : Bytes) (acc : UInt64) :
    (bs.foldl (fun (payloadLen : UInt64) b => payloadLen <<< 8 ||| b.toUInt64) acc).toNat =
      (acc.toNat * 256 ^ bs.length + beNat bs) % 2 ^ 64 := by
  induction bs generalizing acc with
  | nil =>
      have hacc := acc.toNat_lt
      simp only [List.foldl_nil, List.length_nil, Nat.pow_zero, Nat.mul_one, beNat]
      omega
  | cons b bs ih =>
      have hsplit : acc.toNat * 256 ^ (bs.length + 1) + (b.toNat * 256 ^ bs.length + beNat bs) =
          (acc.toNat * 256 + b.toNat) * 256 ^ bs.length + beNat bs := by ring
      rw [List.foldl_cons, ih, shift_or, List.length_cons, beNat_cons, hsplit,
        Nat.add_mod, Nat.mod_mul_mod, ← Nat.add_mod]

/-- The 16-bit length field. -/
theorem medium_value {n : Nat} (h : n < 2 ^ 16) :
    (UInt8.ofNat (n / 256 ^ 1)).toUInt64 <<< 8 ||| (UInt8.ofNat (n / 256 ^ 0)).toUInt64 =
      UInt64.ofNat n := by
  apply UInt64.toNat_inj.mp
  rw [shift_or, UInt8.toNat_toUInt64, UInt8.toNat_ofNat', UInt8.toNat_ofNat', UInt64.toNat_ofNat']
  omega

/-- The 64-bit length field. -/
theorem long_value {bs : Bytes} {n : Nat} (h : beNat bs = n) :
    bs.foldl (fun (payloadLen : UInt64) b => payloadLen <<< 8 ||| b.toUInt64) 0 =
      UInt64.ofNat n := by
  apply UInt64.toNat_inj.mp
  rw [shift_foldl, h, UInt64.toNat_ofNat', UInt64.toNat_zero, Nat.zero_mul, Nat.zero_add]

theorem payloadLength_encode (f : Frame) (cs : Bytes) :
    payloadLength (f.encode ++ cs) (f.byte1 &&& 0x7F) =
      some (UInt64.ofNat f.payload.length, 2 + f.form.width) := by
  have hlen7 := f.byte1_indicator
  have hfits := f.fits
  have hpayload := f.payload_lt
  have hlength : 2 + f.form.width ≤ (f.encode ++ cs).length := by
    rw [List.length_append, f.length_encode]
    omega
  generalize f.byte1 &&& 0x7F = len7 at hlen7 ⊢
  simp only [payloadLength]
  cases hform : f.form with
  | short =>
      simp only [hform, LengthForm.bound, LengthForm.indicator] at hfits hlen7
      have hlt : len7 < 126 := UInt8.lt_iff_toNat_lt.mpr (by rw [hlen7]; exact hfits)
      have hcast : len7.toUInt64 = UInt64.ofNat f.payload.length := by
        apply UInt64.toNat_inj.mp
        rw [UInt8.toNat_toUInt64, hlen7, UInt64.toNat_ofNat']
        omega
      rw [if_pos hlt, hcast]
      rfl
  | medium =>
      simp only [hform, LengthForm.indicator, LengthForm.width, LengthForm.bound]
        at hlen7 hlength hfits
      have heq : len7 = 126 := UInt8.toNat_inj.mp hlen7
      have hbytes : f.lengthBytes =
          [UInt8.ofNat (f.payload.length / 256 ^ 1), UInt8.ofNat (f.payload.length / 256 ^ 0)] := by
        rw [Frame.lengthBytes, hform]
        rfl
      subst heq
      have harrived : ¬ (f.encode ++ cs).length < kWsMinHeaderBytes + 2 := Nat.not_lt_of_le hlength
      rw [if_neg (by decide), if_pos rfl, if_neg harrived, Frame.encode_append, hbytes]
      exact congrArg (fun v => some (v, _)) (medium_value hfits)
  | long =>
      simp only [hform, LengthForm.indicator, LengthForm.width] at hlen7 hlength
      have heq : len7 = 127 := UInt8.toNat_inj.mp hlen7
      have htake : ((f.encode ++ cs).drop kWsMinHeaderBytes).take 8 = f.lengthBytes := by
        have htake := f.take_lengthBytes cs
        rw [hform] at htake
        exact htake
      have hvalue := long_value (f.beNat_lengthBytes (by rw [hform]; decide))
      subst heq
      have harrived : ¬ (f.encode ++ cs).length < kWsMinHeaderBytes + 8 := Nat.not_lt_of_le hlength
      rw [if_neg (by decide), if_neg (by decide), if_neg harrived, htake, hvalue]
      rfl

/-- The key that unmasks a frame: its own, or the zero key. -/
def frameKey (f : Frame) : Bytes := if f.mask.isSome then f.keyBytes else [0, 0, 0, 0]

theorem maskKey_encode (f : Frame) (cs : Bytes) :
    maskKey (f.encode ++ cs) (2 + f.form.width) f.mask.isSome =
      some (frameKey f, 2 + f.form.width + f.keyBytes.length) := by
  have hkey := f.length_keyBytes
  simp only [maskKey, frameKey]
  cases hmask : f.mask.isSome
  · simp only [hmask, Bool.false_eq_true, if_false] at hkey ⊢
    rw [hkey]
    rfl
  · simp only [hmask, if_true] at hkey ⊢
    have hlen : ¬ (f.encode ++ cs).length < 2 + f.form.width + 4 := by
      rw [List.length_append, f.length_encode]
      omega
    rw [if_neg hlen, Frame.drop_length, hkey]
    rw [← hkey, List.take_left]

theorem unmask_wirePayload (f : Frame) : maskWith (frameKey f) f.wirePayload = f.payload := by
  simp only [frameKey, Frame.keyBytes, Frame.wirePayload]
  cases f.mask with
  | none => exact maskWith_zero f.payload
  | some key => exact maskWith_maskWith (List.ofFn key) f.payload

theorem unmaskPayload_encode (f : Frame) (cs : Bytes) :
    unmaskPayload (f.encode ++ cs) (2 + f.form.width + f.keyBytes.length) f.payload.length
      (frameKey f) = .ok f.payload := by
  have hpayload := f.payload_lt
  have hdrop : (f.encode ++ cs).drop (2 + f.form.width + f.keyBytes.length) =
      f.wirePayload ++ cs := by
    rw [← List.drop_drop, Frame.drop_length, List.drop_left]
  have hlen :
      ¬ (f.encode ++ cs).length < 2 + f.form.width + f.keyBytes.length + f.payload.length := by
    rw [List.length_append, f.length_encode]
    omega
  have hand (i : Nat) : i &&& 3 = i % 4 := Nat.and_two_pow_sub_one_eq_mod i 2
  rw [unmaskPayload, if_neg (by rw [kVectorMaxSize]; omega), if_neg hlen, hdrop,
    ← f.length_wirePayload, List.take_left]
  simp only [hand]
  exact congrArg Except.ok (unmask_wirePayload f)

/-- The view of a frame that the filter works on. -/
def frameView (f : Frame) : WsFrame where
  fin := f.fin
  opcode := UInt8.ofNat f.opcode.val
  payload := f.payload
  consumed := f.encode.length
  complete := true

/-- Every RFC 6455 frame is parsed as itself, whatever follows it. -/
theorem attemptFrame_encode (f : Frame) : frameDecoder.Reads Frame.encode frameView f := by
  intro cs
  have hpayload := f.payload_lt
  have hnat : (UInt64.ofNat f.payload.length).toNat = f.payload.length := by
    rw [UInt64.toNat_ofNat', Nat.mod_eq_of_lt (by omega)]
  have hh : parseHeader (f.encode ++ cs) = .inr
      ⟨{ fin := f.fin, opcode := UInt8.ofNat f.opcode.val }, UInt64.ofNat f.payload.length,
        frameKey f, 2 + f.form.width + f.keyBytes.length⟩ := by
    have hget0 : (f.encode ++ cs).getD 0 0 = f.byte0 := rfl
    have hget1 : (f.encode ++ cs).getD 1 0 = f.byte1 := rfl
    have hlen : ¬ (f.encode ++ cs).length < kWsMinHeaderBytes := by
      rw [List.length_append, f.length_encode, kWsMinHeaderBytes]
      omega
    simp only [parseHeader, if_neg hlen, hget0, hget1, payloadLength_encode, f.byte1_masked,
      maskKey_encode, f.byte0_fin, f.byte0_opcode]
  have hok := unmaskPayload_encode f cs
  rw [← hnat] at hok
  have hsize : 2 + f.form.width + f.keyBytes.length + f.payload.length = f.encode.length := by
    rw [f.length_encode]
  have hitem := attemptFrame_of_header hh hok
  simp only [hnat, hsize] at hitem
  exact hitem

/-- A proper beginning of a frame asks for more data. -/
theorem attemptFrame_incomplete {bs : Bytes} (h : WebSocket.Partial bs) :
    frameDecoder.attempt bs = .more := by
  obtain ⟨f, hbegin, hlen⟩ := h
  exact (attemptFrame_encode f).attempt_cut hbegin hlen

end Grpcgi.Envoy
