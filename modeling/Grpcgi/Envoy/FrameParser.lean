import Grpcgi.Envoy.Codec
import Grpcgi.WebSocket.Declared

/-!
# The frame parser of the native filter on arbitrary bytes

`parseFrame` adds the length of the header and the declared length in `uint64_t`
and then sizes the payload. `parseFrame_declared` states its answer in terms of
what the header declares, and `safeParse_iff` says for which buffers the call is
safe: those where the sum of the two lengths does not wrap.
-/

namespace Grpcgi.Envoy

open WebSocket (Frame LengthForm Declared declared declared_fields declared_bound)

/-- The key that the code unmasks with. -/
def declaredKey (d : Declared) (data : Bytes) : Bytes :=
  if d.masked then (data.drop d.keyOffset).take 4 else [0, 0, 0, 0]

theorem medium_bytes {data : Bytes} (h : 4 ≤ data.length) :
    (data.getD 2 0).toUInt64 <<< 8 ||| (data.getD 3 0).toUInt64 =
      UInt64.ofNat (beNat ((data.drop 2).take 2)) := by
  have htwo : (data.drop 2).take 2 = [data.getD 2 0, data.getD 3 0] := by
    rw [List.drop_eq_getElem_cons (by omega), List.drop_eq_getElem_cons (by omega),
      List.getD_eq_getElem _ _ (by omega), List.getD_eq_getElem _ _ (by omega)]
    rfl
  have hvalue : beNat [data.getD 2 0, data.getD 3 0] =
      (data.getD 2 0).toNat * 256 + (data.getD 3 0).toNat := by
    simp only [beNat, List.foldl_cons, List.foldl_nil, Nat.zero_mul, Nat.zero_add]
  apply UInt64.toNat_inj.mp
  rw [shift_or, UInt8.toNat_toUInt64, htwo, hvalue, UInt64.toNat_ofNat']

theorem payloadLength_form {data : Bytes} (hlen : 2 ≤ data.length) {len7 : UInt8}
    (hk : len7.toNat < 128) :
    let form := LengthForm.ofIndicator len7.toNat
    payloadLength data len7 =
      if data.length < 2 + form.width then none
      else some (UInt64.ofNat (if form = .short then len7.toNat
        else beNat ((data.drop 2).take form.width)), 2 + form.width) := by
  obtain h7 | h16 | h64 : len7.toNat < 126 ∨ len7.toNat = 126 ∨ len7.toNat = 127 := by omega
  · have hform : LengthForm.ofIndicator len7.toNat = .short := if_pos h7
    have hfield : payloadLength data len7 = some (len7.toUInt64, 2) :=
      if_pos (UInt8.lt_iff_toNat_lt.mpr h7)
    have hcast : len7.toUInt64 = UInt64.ofNat len7.toNat := by
      apply UInt64.toNat_inj.mp
      rw [UInt8.toNat_toUInt64, UInt64.toNat_ofNat']
      omega
    simp only [hform, hfield, hcast, LengthForm.width, Nat.add_zero,
      if_neg (Nat.not_lt_of_le hlen), if_true]
  · obtain rfl : len7 = 126 := UInt8.toNat_inj.mp h16
    have hfield : payloadLength data 126 = if data.length < 4 then none
        else some ((data.getD 2 0).toUInt64 <<< 8 ||| (data.getD 3 0).toUInt64, 4) := rfl
    change _ = if data.length < 4 then none
      else some (UInt64.ofNat (beNat ((data.drop 2).take 2)), 4)
    rw [hfield]
    by_cases harrived : data.length < 4
    · rw [if_pos harrived, if_pos harrived]
    · rw [if_neg harrived, if_neg harrived, medium_bytes (Nat.le_of_not_lt harrived)]
  · obtain rfl : len7 = 127 := UInt8.toNat_inj.mp h64
    have hvalue := @long_value ((data.drop 2).take 8) _ rfl
    change _ = if data.length < 10 then none
      else some (UInt64.ofNat (beNat ((data.drop 2).take 8)), 10)
    rw [← hvalue]
    rfl

theorem toNat_declared {data : Bytes} {d : Declared} (hd : declared data = some d) :
    (UInt64.ofNat d.length).toNat = d.length := by
  rw [UInt64.toNat_ofNat', Nat.mod_eq_of_lt (declared_bound hd).1]

/-- The code reads the header as declared, once the key has arrived too. -/
theorem parseHeader_declared {data : Bytes} {d : Declared} (hd : declared data = some d) :
    parseHeader data =
      if data.length < d.offset then .inl { fin := d.fin, opcode := d.opcode }
      else .inr ⟨{ fin := d.fin, opcode := d.opcode }, UInt64.ofNat d.length,
        declaredKey d data, d.offset⟩ := by
  obtain ⟨hlen, hfin, hopcode, hmasked, hform, hlength⟩ := declared_fields hd
  have htwo : 2 ≤ data.length := Nat.le_trans (Nat.le_add_right _ _) hlen
  have hk := and_127_lt (data.getD 1 0)
  have harrived : ¬ data.length < 2 + d.form.width := Nat.not_lt_of_le hlen
  have hfield := payloadLength_form htwo hk
  simp only [← hform, ← hlength] at hfield
  rw [if_neg harrived] at hfield
  have hmin : ¬ data.length < kWsMinHeaderBytes := Nat.not_lt_of_le htwo
  simp only [parseHeader, if_neg hmin, hfield, ← hfin, ← hopcode, ← hmasked, maskKey, declaredKey,
    Declared.offset, Declared.keyOffset]
  by_cases hm : d.masked = true
  · simp only [if_pos hm]
    by_cases hkey : data.length < 2 + d.form.width + 4
    · simp only [if_pos hkey]
    · simp only [if_neg hkey]
  · simp only [if_neg hm, Nat.add_zero, if_neg harrived]

/-- Before the length field has arrived the code waits. -/
theorem parseHeader_undeclared {data : Bytes} (hd : declared data = none) :
    ∃ result, parseHeader data = .inl result := by
  by_cases htwo : data.length < kWsMinHeaderBytes
  · exact ⟨{}, if_pos htwo⟩
  · have hk := and_127_lt (data.getD 1 0)
    have hshort : data.length < 2 + (LengthForm.ofIndicator
        (data.getD 1 0 &&& 0x7F).toNat).width := by
      by_contra harrived
      simp only [declared, if_neg harrived] at hd
      cases hd
    have hfield := payloadLength_form (Nat.le_of_not_lt htwo) hk
    simp only [if_pos hshort] at hfield
    refine ⟨{ fin := data.getD 0 0 &&& 0x80 != 0, opcode := data.getD 0 0 &&& 0x0F }, ?_⟩
    simp only [parseHeader, if_neg htwo, hfield]

/-! ## Safety -/

/-- The positions of `data` that the length field is read from. -/
def lengthReads (data : Bytes) (len7 : UInt8) : List Nat :=
  if len7 < 126 then []
  else if len7 = 126 then if data.length < kWsMinHeaderBytes + 2 then [] else [2, 3]
  else if data.length < kWsMinHeaderBytes + 8 then []
  else (List.range 8).map (kWsMinHeaderBytes + ·)

def keyReads (data : Bytes) (headerLen : Nat) (masked : Bool) : List Nat :=
  if masked then
    if data.length < headerLen + 4 then []
    else [headerLen + 0, headerLen + 1, headerLen + 2, headerLen + 3]
  else []

/-- The positions that the payload is copied from: none when the frame is short,
and none when sizing the vector has thrown. -/
def payloadReads (data : Bytes) (header : ParsedHeader) : List Nat :=
  if data.length < (UInt64.ofNat header.headerLen + header.payloadLen).toNat then []
  else if kVectorMaxSize < header.payloadLen.toNat then []
  else (List.range header.payloadLen.toNat).map (header.headerLen + ·)

/-- The positions of `data` that `parseFrame` reads, in its order. -/
def frameReads (data : Bytes) : List Nat :=
  if data.length < kWsMinHeaderBytes then []
  else
    let byte1 := data.getD 1 0
    [0, 1] ++ lengthReads data (byte1 &&& 0x7F) ++
      (match payloadLength data (byte1 &&& 0x7F) with
        | none => []
        | some (_, headerLen) => keyReads data headerLen (byte1 &&& 0x80 != 0)) ++
      match parseHeader data with
      | .inl _ => []
      | .inr header => payloadReads data header

/-- One call is safe: it returns, it never sizes the payload beyond the bytes after
the header, it reads inside the buffer, and a complete frame has, as exact numbers,
the bytes its header declares. -/
structure SafeParse (data : Bytes) : Prop where
  returns : ∃ frame, parseFrame data = .ok frame
  sized : ∀ header, parseHeader data = .inr header →
    (UInt64.ofNat header.headerLen + header.payloadLen).toNat ≤ data.length →
    header.headerLen + header.payloadLen.toNat ≤ data.length
  reads : ∀ i ∈ frameReads data, i < data.length
  complete : ∀ frame, parseFrame data = .ok frame → frame.complete = true →
    ∃ d, declared data = some d ∧ d.offset + d.length ≤ data.length ∧
      2 ≤ frame.consumed ∧ frame.consumed = d.offset + d.length ∧
      frame.opcode = d.opcode ∧ frame.payload.length = d.length ∧ frame.payload = d.payload data

theorem lengthReads_inside {data : Bytes} {len7 : UInt8} :
    ∀ i ∈ lengthReads data len7, i < data.length := by
  intro i hi
  simp only [lengthReads] at hi
  split_ifs at hi with h7 h16 hlen hlen
  · cases hi
  · cases hi
  · simp only [kWsMinHeaderBytes] at hlen
    simp only [List.mem_cons, List.not_mem_nil, or_false] at hi
    omega
  · cases hi
  · simp only [kWsMinHeaderBytes] at hlen hi
    obtain ⟨k, hk, rfl⟩ := List.mem_map.mp hi
    have hlt := List.mem_range.mp hk
    omega

theorem keyReads_inside {data : Bytes} {headerLen : Nat} {masked : Bool} :
    ∀ i ∈ keyReads data headerLen masked, i < data.length := by
  intro i hi
  simp only [keyReads] at hi
  split_ifs at hi with hm hlen
  · cases hi
  · simp only [List.mem_cons, List.not_mem_nil, or_false] at hi
    omega
  · cases hi

/-- A total that wraps makes the sizing throw before anything is copied. -/
theorem payloadReads_inside {data : Bytes} {header : ParsedHeader}
    (hheader : header.headerLen ≤ 14) :
    ∀ i ∈ payloadReads data header, i < data.length := by
  intro i hi
  simp only [payloadReads] at hi
  split_ifs at hi with htotal hmax
  · cases hi
  · cases hi
  · obtain ⟨k, hk, rfl⟩ := List.mem_map.mp hi
    have hlt := List.mem_range.mp hk
    simp only [kVectorMaxSize] at hmax
    rw [frameTotal_toNat _ _ hheader, Nat.mod_eq_of_lt (by omega)] at htotal
    omega

/-- No call reads outside its buffer. -/
theorem frameReads_inside (data : Bytes) : ∀ i ∈ frameReads data, i < data.length := by
  intro i hi
  simp only [frameReads] at hi
  split at hi
  · cases hi
  · rename_i hmin
    simp only [kWsMinHeaderBytes] at hmin
    rw [List.mem_append, List.mem_append, List.mem_append] at hi
    obtain ((hi | hi) | hi) | hi := hi
    · simp only [List.mem_cons, List.not_mem_nil, or_false] at hi
      omega
    · exact lengthReads_inside i hi
    · split at hi
      · cases hi
      · exact keyReads_inside i hi
    · split at hi
      · cases hi
      · rename_i header hh
        exact payloadReads_inside (parseHeader_result hh).2.2 i hi

theorem unmaskPayload_declared {data : Bytes} {d : Declared} (hmax : d.length ≤ kVectorMaxSize)
    (hcomplete : d.Complete data) :
    unmaskPayload data d.offset d.length (declaredKey d data) = .ok (d.payload data) := by
  have hle : d.offset + d.length ≤ data.length := hcomplete
  have hand (i : Nat) : i &&& 3 = i % 4 := Nat.and_two_pow_sub_one_eq_mod i 2
  rw [unmaskPayload, if_neg (Nat.not_lt_of_le hmax), if_neg (Nat.not_lt_of_le hle)]
  simp only [hand, declaredKey, Declared.payload]
  by_cases hm : d.masked = true
  · simp only [if_pos hm]
    rfl
  · simp only [if_neg hm]
    exact congrArg Except.ok (maskWith_zero _)

/-- With a sum that does not wrap, the answer is the declared frame if it is
complete, and a request for more data if it is not. -/
theorem parseFrame_declared {data : Bytes} {d : Declared} (hd : declared data = some d)
    (hmax : d.Complete data → d.length ≤ kVectorMaxSize)
    (hsum : d.offset ≤ data.length → d.offset + d.length < 2 ^ 64) :
    parseFrame data = .ok (if d.Complete data then {
        fin := d.fin, opcode := d.opcode, payload := d.payload data
        consumed := d.offset + d.length, complete := true }
      else { fin := d.fin, opcode := d.opcode }) := by
  have hnat := toNat_declared hd
  rw [parseFrame, parseHeader_declared hd]
  by_cases hkey : data.length < d.offset
  · have hshort : ¬ d.Complete data := by
      simp only [Declared.Complete]
      omega
    rw [if_pos hkey, if_neg hshort]
  · have htotal : (UInt64.ofNat d.offset + UInt64.ofNat d.length).toNat =
        d.offset + d.length := by
      rw [frameTotal_toNat _ _ d.offset_bounds.2, hnat,
        Nat.mod_eq_of_lt (hsum (Nat.le_of_not_lt hkey))]
    rw [if_neg hkey]
    simp only [parsePayload, htotal, hnat]
    by_cases hcomplete : d.Complete data
    · have hle : d.offset + d.length ≤ data.length := hcomplete
      rw [if_neg (Nat.not_lt_of_le hle), unmaskPayload_declared (hmax hcomplete) hcomplete,
        if_pos hcomplete]
    · have hlt : data.length < d.offset + d.length := Nat.lt_of_not_le hcomplete
      rw [if_pos hlt, if_neg hcomplete]

/-- `parseFrame` is safe exactly where the length of a header that has arrived, key
included, and the length it declares add up below `2^64`. -/
theorem safeParse_iff (data : Bytes) (hdata : data.length < 2 ^ 63) :
    SafeParse data ↔
      ∀ d, declared data = some d → d.offset ≤ data.length → d.offset + d.length < 2 ^ 64 := by
  constructor
  · intro h d hd hkey
    by_contra hwraps
    obtain ⟨hlength, -⟩ := declared_bound hd
    have hoffset := d.offset_bounds
    have hnat := toNat_declared hd
    have hheader := parseHeader_declared hd
    rw [if_neg (Nat.not_lt_of_le hkey)] at hheader
    have hsized := h.sized _ hheader
    simp only [frameTotal_toNat _ _ hoffset.2, hnat] at hsized
    omega
  · intro h
    cases hd : declared data with
    | none =>
        obtain ⟨result, hheader⟩ := parseHeader_undeclared hd
        have hparse : parseFrame data = .ok result := by rw [parseFrame, hheader]
        refine ⟨⟨result, hparse⟩, ?_, frameReads_inside data, ?_⟩
        · intro header hh
          rw [hheader] at hh
          cases hh
        · intro frame hframe hcomplete
          rw [hparse] at hframe
          cases hframe
          rw [parseHeader_incomplete hheader] at hcomplete
          cases hcomplete
    | some d =>
        have hsum := h d hd
        have hmax (hc : d.Complete data) : d.length ≤ kVectorMaxSize := by
          simp only [Declared.Complete, kVectorMaxSize] at hc ⊢
          omega
        have hparse := parseFrame_declared hd hmax hsum
        have hoffset := d.offset_bounds
        have hnat := toNat_declared hd
        refine ⟨⟨_, hparse⟩, ?_, frameReads_inside data, ?_⟩
        · intro header hh htotal
          rw [parseHeader_declared hd] at hh
          by_cases hkey : data.length < d.offset
          · rw [if_pos hkey] at hh
            cases hh
          · rw [if_neg hkey] at hh
            cases hh
            simp only [frameTotal_toNat _ _ hoffset.2, hnat,
              Nat.mod_eq_of_lt (hsum (Nat.le_of_not_lt hkey))] at htotal ⊢
            exact htotal
        · intro frame hframe hcomplete
          rw [hparse] at hframe
          by_cases hc : d.Complete data
          · rw [if_pos hc] at hframe
            cases hframe
            exact ⟨d, hd, hc, by simp only; omega, rfl, rfl, Declared.length_payload hc, rfl⟩
          · rw [if_neg hc] at hframe
            cases hframe
            cases hcomplete

/-- A Ping whose payload has not arrived. -/
theorem safeParse_iff_ping : SafeParse [0x89, 0x82, 0x01, 0x02, 0x03, 0x04] :=
  (safeParse_iff [0x89, 0x82, 0x01, 0x02, 0x03, 0x04] (by decide)).mpr fun d hd _ => by
    cases hd
    decide

/-- Ten bytes that declare `2^64 - 1` more: the sum wraps to nine, the completeness
test passes and `resize` throws. -/
theorem unsafe_length :
    parseFrame [0x82, 0x7F, 0xFF, 0xFF, 0xFF, 0xFF, 0xFF, 0xFF, 0xFF, 0xFF] =
        .error .lengthError ∧
      ¬ SafeParse [0x82, 0x7F, 0xFF, 0xFF, 0xFF, 0xFF, 0xFF, 0xFF, 0xFF, 0xFF] := by
  have hthrows : parseFrame [0x82, 0x7F, 0xFF, 0xFF, 0xFF, 0xFF, 0xFF, 0xFF, 0xFF, 0xFF] =
      .error .lengthError := by decide
  refine ⟨hthrows, fun h => ?_⟩
  obtain ⟨frame, hframe⟩ := h.returns
  rw [hthrows] at hframe
  cases hframe

end Grpcgi.Envoy
