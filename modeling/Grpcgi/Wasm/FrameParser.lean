import Grpcgi.Wasm.Codec
import Grpcgi.WebSocket.Declared

/-!
# The frame parser of the WASM filter on arbitrary bytes

`parse_ws_frame` casts a 64-bit length to `usize` and adds it to the header
before it tests whether the frame is complete. `parseWsFrame_declared` states
what it computes in terms of the length that the header declares, and
`faithful_iff` says for which buffers that is the frame at their front.
-/

namespace Grpcgi.Wasm

open WebSocket (Frame LengthForm Declared declared declared_fields Starts starts_iff)

/-- The length field of each form, cast to `usize`. -/
theorem payloadLen_form {bits : Nat} (hbits : 16 ≤ bits) {buf : Bytes} (hlen : 2 ≤ buf.length)
    {k : Nat} (hk : k < 128) :
    let form := LengthForm.ofIndicator k
    payloadLen bits buf k =
      if buf.length < 2 + form.width then none
      else some (usize bits (if form = .short then k else beNat ((buf.drop 2).take form.width)),
        2 + form.width) := by
  have hsmall : ∀ n, n < 2 ^ 16 → usize bits n = n := fun n hn =>
    usize_of_lt (Nat.lt_of_lt_of_le hn (Nat.pow_le_pow_right (by decide) hbits))
  obtain h7 | rfl | rfl : k < 126 ∨ k = 126 ∨ k = 127 := by omega
  · have hform : LengthForm.ofIndicator k = .short := if_pos h7
    simp only [payloadLen, hform, if_neg (show ¬ k = 126 by omega),
      if_neg (show ¬ k = 127 by omega), LengthForm.width, Nat.add_zero,
      if_neg (Nat.not_lt_of_le hlen), if_true, hsmall k (by omega)]
  · have hvalue : beNat ((buf.drop 2).take 2) < 2 ^ 16 :=
      Nat.lt_of_lt_of_le (beNat_lt _)
        (Nat.pow_le_pow_right (by decide) (List.length_take_le _ _))
    have hform : LengthForm.ofIndicator 126 = .medium := rfl
    simp only [payloadLen, hform, LengthForm.width, if_true, reduceCtorEq, if_false,
      hsmall _ hvalue]
  · rfl

/-- The code reads the header as declared, up to the cast of the length and the
wrapping of the total. -/
theorem wsHeader_declared {bits : Nat} (hbits : 16 ≤ bits) (buf : Bytes) :
    wsHeader bits buf = (declared buf).map fun d =>
      ⟨d.opcode, d.masked, d.keyOffset, d.offset,
        usize bits (d.offset + usize bits d.length)⟩ := by
  have hk := and_127_lt (buf.getD 1 0)
  simp only [wsHeader, declared]
  by_cases hshort : buf.length < 2
  · rw [if_pos hshort, if_pos (by omega)]
    rfl
  · have hlen := payloadLen_form hbits (Nat.le_of_not_lt hshort) hk
    simp only at hlen
    rw [if_neg hshort, hlen]
    by_cases hfield : buf.length < 2 + (LengthForm.ofIndicator
        (buf.getD 1 0 &&& 0x7F).toNat).width
    · rw [if_pos hfield, if_pos hfield]
      rfl
    · rw [if_neg hfield, if_neg hfield, Option.map_some]
      simp only [Declared.offset, Declared.keyOffset]
      split <;> rfl

/-- What `parse_ws_frame` answers, in terms of what the header declares. -/
theorem parseWsFrame_declared {bits : Nat} (hbits : 16 ≤ bits) {buf : Bytes} {d : Declared}
    (hd : declared buf = some d) :
    parseWsFrame bits buf =
      let total := usize bits (d.offset + usize bits d.length)
      if buf.length < total then .ok none
      else if total < d.offset then .error .sliceOrder
      else .ok (some (d.opcode, { d with length := total - d.offset }.payload buf, total)) := by
  have hh : wsHeader bits buf = some ⟨d.opcode, d.masked, d.keyOffset, d.offset,
      usize bits (d.offset + usize bits d.length)⟩ := by
    rw [wsHeader_declared hbits, hd]
    rfl
  simp only [parseWsFrame, hh]
  by_cases hlen : buf.length < usize bits (d.offset + usize bits d.length)
  · rw [if_pos hlen, if_pos hlen]
  · rw [if_neg hlen, if_neg hlen, wsPayload_eq hh (Nat.le_of_not_lt hlen)]
    simp only
    split <;> rfl

theorem parseWsFrame_undeclared {bits : Nat} (hbits : 16 ≤ bits) {buf : Bytes}
    (hd : declared buf = none) : parseWsFrame bits buf = .ok none := by
  rw [parseWsFrame, wsHeader_declared hbits, hd]
  rfl

/-! ## Faithfulness -/

/-- `payload_offset + payload_len` is in the range of `usize` where the code
computes it. -/
def TotalInRange (bits : Nat) (buf : Bytes) : Prop :=
  2 ≤ buf.length → ∀ len maskOffset,
    payloadLen bits buf (buf.getD 1 0 &&& 0x7F).toNat = some (len, maskOffset) →
    (if buf.getD 1 0 &&& 0x80 != 0 then maskOffset + 4 else maskOffset) + len < 2 ^ bits

/-- One call does what the comment on `parse_ws_frame` promises: no addition
overflows, no slice is out of range, and the answer is the complete frame that the
buffer starts with, if there is one. -/
structure Faithful (bits : Nat) (buf : Bytes) : Prop where
  total : TotalInRange bits buf
  returns : ∃ answer, parseWsFrame bits buf = .ok answer ∧
    ∀ opcode payload consumed,
      answer = some (opcode, payload, consumed) ↔ Starts buf opcode payload consumed
  sizes : ∀ opcode payload consumed,
    parseWsFrame bits buf = .ok (some (opcode, payload, consumed)) →
      2 ≤ consumed ∧ consumed ≤ buf.length ∧
        ∃ d, declared buf = some d ∧ payload.length = d.length ∧ payload = d.payload buf

theorem totalInRange_iff {bits : Nat} (hbits : 16 ≤ bits) (buf : Bytes) :
    TotalInRange bits buf ↔
      ∀ d, declared buf = some d → d.offset + usize bits d.length < 2 ^ bits := by
  have hk := and_127_lt (buf.getD 1 0)
  have hoffset (width : Nat) : (if (buf.getD 1 0 &&& 0x80 != 0) = true then 2 + width + 4
      else 2 + width) = 2 + width + if (buf.getD 1 0 &&& 0x80 != 0) = true then 4 else 0 := by
    split <;> rfl
  constructor
  · intro h d hd
    obtain ⟨hlen, -, -, hmasked, hform, hlength⟩ := declared_fields hd
    have htwo : 2 ≤ buf.length := Nat.le_trans (Nat.le_add_right _ _) hlen
    have hfield := payloadLen_form hbits htwo hk
    have harrived : ¬ buf.length < 2 + d.form.width := Nat.not_lt_of_le hlen
    simp only [← hform, ← hlength] at hfield
    rw [if_neg harrived] at hfield
    have hsum := h htwo _ _ hfield
    rwa [hoffset, ← hmasked] at hsum
  · intro h htwo len maskOffset hfield
    have hform := payloadLen_form hbits htwo hk
    simp only at hform
    rw [hform] at hfield
    by_cases hlen : buf.length < 2 + (LengthForm.ofIndicator
        (buf.getD 1 0 &&& 0x7F).toNat).width
    · rw [if_pos hlen] at hfield
      cases hfield
    · rw [if_neg hlen] at hfield
      cases hfield
      rw [hoffset]
      exact h _ (by rw [declared, if_neg hlen])

/-- The lengths that survive the cast to 32 bits and the sum with the header, or
make the parser wait as it should. -/
def LengthHandled (buf : Bytes) (d : Declared) : Prop :=
  d.offset + d.length % 2 ^ 32 < 2 ^ 32 ∧
    (d.length < 2 ^ 32 ∨ buf.length < d.offset + d.length % 2 ^ 32)

instance (buf : Bytes) (d : Declared) : Decidable (LengthHandled buf d) :=
  inferInstanceAs (Decidable (_ ∧ _))

/-- A length whose sum with the header is in range: the answer is the declared frame
if it is complete. -/
theorem parseWsFrame_exact {bits : Nat} (hbits : 16 ≤ bits) {buf : Bytes} {d : Declared}
    (hd : declared buf = some d) (hsum : d.offset + d.length < 2 ^ bits) :
    parseWsFrame bits buf =
      .ok (if d.Complete buf then some (d.opcode, d.payload buf, d.offset + d.length)
        else none) := by
  have htotal : usize bits (d.offset + usize bits d.length) = d.offset + d.length := by
    rw [usize_of_lt (show d.length < 2 ^ bits by omega), usize_of_lt hsum]
  rw [parseWsFrame_declared hbits hd]
  simp only [htotal]
  by_cases hcomplete : d.Complete buf
  · have hle : d.offset + d.length ≤ buf.length := hcomplete
    rw [if_neg (Nat.not_lt_of_le hle), if_neg (by omega), if_pos hcomplete,
      Nat.add_sub_cancel_left]
  · have hlt : buf.length < d.offset + d.length := Nat.lt_of_not_le hcomplete
    rw [if_pos hlt, if_neg hcomplete]

/-- The total as the code computes it, where the sum is in range. -/
theorem usize_total {d : Declared} (hsum : d.offset + d.length % 2 ^ 32 < 2 ^ 32) :
    usize 32 (d.offset + usize 32 d.length) = d.offset + d.length % 2 ^ 32 := Nat.mod_eq_of_lt hsum

theorem parseWsFrame_handled {buf : Bytes} {d : Declared}
    (hd : declared buf = some d) (h : LengthHandled buf d) :
    parseWsFrame 32 buf =
      .ok (if d.Complete buf then some (d.opcode, d.payload buf, d.offset + d.length)
        else none) := by
  obtain ⟨hsum, hlength⟩ := h
  obtain hsmall | hshort := hlength
  · rw [Nat.mod_eq_of_lt hsmall] at hsum
    exact parseWsFrame_exact (by decide) hd hsum
  · have hincomplete : ¬ d.Complete buf := by
      have hle := Nat.mod_le d.length (2 ^ 32)
      simp only [Declared.Complete]
      omega
    rw [parseWsFrame_declared (by decide) hd]
    simp only [usize_total hsum, if_pos hshort, if_neg hincomplete]

/-- `parse_ws_frame` is faithful exactly where the declared length, as cast to 32
bits, does not overflow the total, and is the declared length unless the buffer is
too short even for what the cast left of it. -/
theorem faithful_iff (buf : Bytes) (hbuf : buf.length < 2 ^ 32) :
    Faithful 32 buf ↔ ∀ d, declared buf = some d → LengthHandled buf d := by
  have hstarts := @starts_iff buf (Nat.lt_trans hbuf (by decide))
  constructor
  · intro h d hd
    have hsum : d.offset + d.length % 2 ^ 32 < 2 ^ 32 :=
      (totalInRange_iff (by decide) buf).mp h.total d hd
    refine ⟨hsum, ?_⟩
    by_contra hbad
    obtain ⟨hlarge, harrived⟩ := not_or.mp hbad
    obtain ⟨answer, hanswer, hiff⟩ := h.returns
    rw [parseWsFrame_declared (by decide) hd] at hanswer
    simp only [usize_total hsum, if_neg harrived, Nat.not_lt_of_le (Nat.le_add_right d.offset _),
      if_false] at hanswer
    -- the parser takes the frame for complete, but its declared bytes are not there
    obtain ⟨d', hd', hcomplete, -⟩ := (hstarts _ _ _).mp ((hiff _ _ _).mp
      (Except.ok.inj hanswer).symm)
    rw [hd] at hd'
    cases hd'
    simp only [Declared.Complete] at hcomplete
    omega
  · intro h
    have htotal : TotalInRange 32 buf :=
      (totalInRange_iff (by decide) buf).mpr fun d hd => (h d hd).1
    cases hd : declared buf with
    | none =>
        have hparse := @parseWsFrame_undeclared 32 (by decide) buf hd
        refine ⟨htotal, ⟨none, hparse, ?_⟩, ?_⟩
        · intro opcode payload consumed
          rw [hstarts, hd]
          simp
        · intro opcode payload consumed hsome
          rw [hparse] at hsome
          cases hsome
    | some d =>
        have hparse := parseWsFrame_handled hd (h d hd)
        refine ⟨htotal, ⟨_, hparse, ?_⟩, ?_⟩
        · intro opcode payload consumed
          rw [hstarts, hd]
          by_cases hcomplete : d.Complete buf
          · simp [hcomplete]
          · simp [hcomplete]
        · intro opcode payload consumed hsome
          rw [hparse] at hsome
          by_cases hcomplete : d.Complete buf
          · rw [if_pos hcomplete] at hsome
            cases hsome
            have hoffset := d.offset_bounds
            exact ⟨by omega, hcomplete, d, hd, Declared.length_payload hcomplete, rfl⟩
          · rw [if_neg hcomplete] at hsome
            cases hsome

/-- A complete masked frame is handled. -/
theorem faithful_iff_text :
    Faithful 32 [0x81, 0x81, 0x01, 0x02, 0x03, 0x04, 0x42] :=
  (faithful_iff [0x81, 0x81, 0x01, 0x02, 0x03, 0x04, 0x42] (by decide)).mpr fun d hd => by
    cases hd
    decide

/-- Ten bytes that declare `2^32 - 1` more: the total wraps to nine, and the slice
`buf[10..9]` panics. Eleven that declare `2^32 + 1`: the cast leaves one, and the
first byte is answered as the whole payload. -/
theorem unfaithful_lengths :
    (parseWsFrame 32 [0x82, 0x7F, 0x00, 0x00, 0x00, 0x00, 0xFF, 0xFF, 0xFF, 0xFF] =
        .error .sliceOrder ∧
      ¬ Faithful 32 [0x82, 0x7F, 0x00, 0x00, 0x00, 0x00, 0xFF, 0xFF, 0xFF, 0xFF]) ∧
    (parseWsFrame 32 [0x82, 0x7F, 0x00, 0x00, 0x00, 0x01, 0x00, 0x00, 0x00, 0x01, 0x42] =
        .ok (some (2, [0x42], 11)) ∧
      ¬ Faithful 32 [0x82, 0x7F, 0x00, 0x00, 0x00, 0x01, 0x00, 0x00, 0x00, 0x01, 0x42]) := by
  have htrap : parseWsFrame 32 [0x82, 0x7F, 0x00, 0x00, 0x00, 0x00, 0xFF, 0xFF, 0xFF, 0xFF] =
      .error .sliceOrder := by decide
  have hsome : parseWsFrame 32
      [0x82, 0x7F, 0x00, 0x00, 0x00, 0x01, 0x00, 0x00, 0x00, 0x01, 0x42] =
        .ok (some (2, [0x42], 11)) := by decide
  refine ⟨⟨htrap, fun h => ?_⟩, hsome, fun h => ?_⟩
  · obtain ⟨answer, hanswer, -⟩ := h.returns
    rw [htrap] at hanswer
    cases hanswer
  · obtain ⟨-, -, d, hd, hlength, -⟩ := h.sizes _ _ _ hsome
    cases hd
    exact absurd hlength (by decide)

/-! ## The encoder's own frames -/

/-- The frame that `encode_ws_frame` writes. With a key, the same header with the
MASK bit, the key and the masked payload. -/
def wireFrame (opcode : UInt8) (mask : Option (Fin 4 → UInt8)) (payload : Bytes) : Bytes :=
  let frame := encodeWsFrame opcode payload
  match mask with
  | none => frame
  | some key =>
    let header := frame.take (frame.length - payload.length)
    header.modify 1 (· ||| 0x80) ++ (List.ofFn key ++ maskWith (List.ofFn key) payload)

theorem byte0_encode (opcode : UInt8) :
    0x80 ||| (opcode &&& 0x0F) = UInt8.ofNat (128 + opcode.toNat % 16) := by
  have hall : ∀ i : Fin 256, 0x80 ||| (UInt8.ofNat i.val &&& 0x0F) =
      UInt8.ofNat (128 + i.val % 16) := by decide +kernel
  simpa using hall ⟨opcode.toNat, opcode.toNat_lt⟩

theorem byte1_masked {n : Nat} (h : n < 128) : UInt8.ofNat n ||| 0x80 = UInt8.ofNat (128 + n) := by
  have hall : ∀ i : Fin 128, UInt8.ofNat i.val ||| 0x80 = UInt8.ofNat (128 + i.val) := by
    decide +kernel
  exact hall ⟨n, h⟩

/-- The encoder writes the shortest length field. -/
theorem encodeWsFrame_shortest (opcode : UInt8) (payload : Bytes) :
    encodeWsFrame opcode payload =
      (0x80 ||| (opcode &&& 0x0F)) ::
        UInt8.ofNat ((LengthForm.shortest payload.length).indicator payload.length) ::
          (beBytes (LengthForm.shortest payload.length).width payload.length ++ payload) := by
  simp only [encodeWsFrame, LengthForm.shortest]
  by_cases h7 : payload.length < 126
  · simp only [if_pos h7]
    rfl
  · by_cases h16 : payload.length < 2 ^ 16
    · rw [if_neg h7, if_pos (by omega), if_neg h7, if_pos h16]
      rfl
    · rw [if_neg h7, if_neg (by omega), if_neg h7, if_neg h16]
      rfl

/-- Masked or not, it is an RFC 6455 frame. -/
theorem wireFrame_eq (opcode : Fin 16) (mask : Option (Fin 4 → UInt8)) {payload : Bytes}
    (h : payload.length < 2 ^ 63) :
    wireFrame (UInt8.ofNat opcode.val) mask payload =
      (Frame.shortest opcode mask payload h).encode := by
  have hopcode : (UInt8.ofNat opcode.val).toNat % 16 = opcode.val := by
    have hlt := opcode.isLt
    rw [UInt8.toNat_ofNat']
    omega
  have hindicator := (Frame.shortest opcode mask payload h).indicator_lt
  simp only [Frame.shortest] at hindicator
  simp only [wireFrame, encodeWsFrame_shortest, byte0_encode, hopcode]
  generalize hlen : beBytes (LengthForm.shortest payload.length).width payload.length = lenBytes
  cases mask with
  | none =>
      have hbyte1 : (Frame.shortest opcode none payload h).byte1 =
          UInt8.ofNat ((LengthForm.shortest payload.length).indicator payload.length) :=
        congrArg UInt8.ofNat (Nat.zero_add _)
      rw [Frame.encode, hbyte1, ← hlen]
      rfl
  | some key =>
      have htake (b0 b1 : UInt8) : (b0 :: b1 :: (lenBytes ++ payload)).take
          ((b0 :: b1 :: (lenBytes ++ payload)).length - payload.length) = b0 :: b1 :: lenBytes := by
        have hsize : (b0 :: b1 :: (lenBytes ++ payload)).length - payload.length =
            (b0 :: b1 :: lenBytes).length := by
          simp only [List.length_cons, List.length_append]
          omega
        rw [hsize]
        exact List.take_left
      rw [htake]
      simp only [List.modify_succ_cons, List.modify_zero_cons, byte1_masked hindicator]
      rw [Frame.encode, ← hlen]
      rfl

theorem parseWsFrame_of_item {bits n : Nat} {buf payload : Bytes} {opcode : UInt8}
    (h : attemptWsFrame bits buf = .item (opcode, payload) n) :
    parseWsFrame bits buf = .ok (some (opcode, payload, n)) := by
  simp only [attemptWsFrame] at h
  split at h
  · cases h
  · cases h
  · rename_i hparse
    cases h
    exact hparse

theorem parseWsFrame_of_more {bits : Nat} {buf : Bytes} (h : attemptWsFrame bits buf = .more) :
    parseWsFrame bits buf = .ok none := by
  simp only [attemptWsFrame] at h
  split at h
  · cases h
  · rename_i hparse
    exact hparse
  · cases h

/-- The parser undoes the encoder whatever follows the frame, and asks for more on
every proper beginning of it. -/
theorem parseWsFrame_wireFrame {bits : Nat} (hbits : 32 ≤ bits) (opcode : Fin 16)
    (mask : Option (Fin 4 → UInt8)) (payload : Bytes) (hpayload : payload.length < 2 ^ 31) :
    (∀ suffix, parseWsFrame bits (wireFrame (UInt8.ofNat opcode.val) mask payload ++ suffix) =
      .ok (some (UInt8.ofNat opcode.val, payload,
        (wireFrame (UInt8.ofNat opcode.val) mask payload).length))) ∧
    ∀ bs, bs <+: wireFrame (UInt8.ofNat opcode.val) mask payload →
      bs ≠ wireFrame (UInt8.ofNat opcode.val) mask payload → parseWsFrame bits bs = .ok none := by
  have hlong : payload.length < 2 ^ 63 := Nat.lt_trans hpayload (by decide)
  have hwidth : (Frame.shortest opcode mask payload hlong).encode.length < 2 ^ bits := by
    have hsize := (Frame.shortest opcode mask payload hlong).length_encode_le
    have hpow : 2 ^ 32 ≤ 2 ^ bits := Nat.pow_le_pow_right (by decide) hbits
    simp only [Frame.shortest] at hsize ⊢
    omega
  have hreads := attemptWsFrame_encode _ hwidth
  rw [wireFrame_eq opcode mask hlong]
  constructor
  · intro suffix
    exact parseWsFrame_of_item (hreads suffix)
  · intro bs hbegin hne
    have hlen : bs.length < (Frame.shortest opcode mask payload hlong).encode.length :=
      Nat.lt_of_le_of_ne hbegin.length_le (mt hbegin.eq_of_length hne)
    exact parseWsFrame_of_more (hreads.attempt_cut hbegin hlen)

/-- A masked frame and what is cut off it. -/
theorem parseWsFrame_wireFrame_text :
    let frame := wireFrame 1 (some fun _ => 0x20) [0x48, 0x69]
    parseWsFrame 32 (frame ++ [0x88]) = .ok (some (1, [0x48, 0x69], 8)) ∧
      parseWsFrame 32 (frame.take 7) = .ok none := by
  have h := @parseWsFrame_wireFrame 32 (by decide) 1 (some fun _ => 0x20) [0x48, 0x69]
    (by decide)
  exact ⟨h.1 [0x88], h.2 _ (List.take_prefix _ _) (by decide)⟩

end Grpcgi.Wasm
