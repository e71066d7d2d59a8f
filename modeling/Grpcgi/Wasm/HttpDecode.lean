import Grpcgi.Wasm.HttpResponse

/-!
# `decode_http_response`

The second decoder of `wasm/http-bridge/src/lib.rs`: `HttpResponse` with its headers
and body. Each header is a message of its own, which `decode_header` reads, and one
that it refuses is left out. Trailers have no arm of their own.
-/

namespace Grpcgi.Wasm.HttpBridge

/-- What the decoder has read so far. -/
structure Response where
  status : UInt32 := 200
  headers : List (Str × Str) := []
  body : Bytes := []
  deriving DecidableEq, Repr

/-- One iteration of the loop of `decode_http_response`. -/
def decodeResponseField (bits : Nat) (raw : Bytes) (pos : Nat) (response : Response) :
    Except Trap (Iteration Response) := do
  match ← readVarintAt raw pos with
  | none => return .invalid
  | some (tag, n) =>
    let pos := usize bits (pos + n)
    let field := (tag >>> 3).toNat % 2 ^ 32
    let wire := (tag &&& 0x7).toNat
    if field = 1 ∧ wire = 0 then
      match ← readVarintAt raw pos with
      | none => return .invalid
      | some (v, n) => return .next (usize bits (pos + n)) { response with status := v.toUInt32 }
    else if field = 2 ∧ wire = 2 then
      match ← readLenField bits raw pos with
      | none => return .invalid
      | some (msg, pos) =>
        match ← decodeHeader bits msg with
        | some header => return .next pos { response with headers := response.headers ++ [header] }
        | none => return .next pos response
    else if field = 3 ∧ wire = 2 then
      match ← readLenField bits raw pos with
      | none => return .invalid
      | some (data, pos) => return .next pos { response with body := response.body ++ data }
    else if wire = 0 then
      match ← readVarintAt raw pos with
      | none => return .invalid
      | some (_, n) => return .next (usize bits (pos + n)) response
    else if wire = 2 then
      match ← readVarintAt raw pos with
      | none => return .invalid
      | some (l, n) =>
        let pos := usize bits (pos + n)
        return .next (usize bits (pos + usize bits l.toNat)) response
    else if wire = 5 then return .next (usize bits (pos + 4)) response
    else if wire = 1 then return .next (usize bits (pos + 8)) response
    else return .done

/-- The loop of `decode_http_response`. -/
def decodeResponseLoop (bits : Nat) (raw : Bytes) :
    Nat → Nat → Response → Except Trap (Option Response)
  | 0, _, _ => .error .diverges
  | fuel + 1, pos, response =>
    if pos < raw.length then
      match decodeResponseField bits raw pos response with
      | .error e => .error e
      | .ok .invalid => .ok none
      | .ok .done => .ok (some response)
      | .ok (.next pos response) => decodeResponseLoop bits raw fuel pos response
    else .ok (some response)

/-- `decode_http_response`. As in `decode_header`, a loop that takes more iterations
than there are positions never ends. -/
def decodeHttpResponse (bits : Nat) (raw : Bytes) : Except Trap (Option Response) :=
  decodeResponseLoop bits raw (raw.length + 1) 0 {}

/-! ## Messages that parse -/

open Protobuf (Field Value)

/-- What a field does to the response; `header` is what `decode_header` makes of the
headers. -/
def Response.set (header : Bytes → Option (Str × Str)) (response : Response) (f : Field) :
    Response :=
  match f.value with
  | .varint v => if f.number = 1 then { response with status := v.toUInt32 } else response
  | .len data =>
    if f.number = 2 then { response with headers := response.headers ++ (header data).toList }
    else if f.number = 3 then { response with body := response.body ++ data }
    else response
  | _ => response

/-- `header` says what `decode_header` makes of the field, if it is a header. -/
def ReadsHeader (bits : Nat) (header : Bytes → Option (Str × Str)) (f : Field) : Prop :=
  ∀ data, f.number = 2 → f.value = .len data → decodeHeader bits data = .ok (header data)

section Parsed

variable {bits : Nat} {raw : Bytes} {header : Bytes → Option (Str × Str)}

theorem decodeResponseField_read {i : Nat} {f : Field} {size : Nat} (response : Response)
    (h : Protobuf.readField (raw.drop i) = some (f, size)) (hi : i ≤ raw.length)
    (hwidth : raw.length < 2 ^ bits) (hheader : ReadsHeader bits header f) :
    decodeResponseField bits raw i response = .ok (.next (i + size) (response.set header f)) := by
  obtain ⟨tag, n, m, ⟨hread, hwire, hfield, hvalue, hinside, hstart, hstop⟩, rfl⟩ :=
    readField_at h hi hwidth
  have hpos : i + n ≤ raw.length := by omega
  simp only [decodeResponseField, readVarintAt_eq hi, ok_bind, hread, hstart, hwire, hfield,
    readVarintAt_eq hpos]
  obtain ⟨hzero, v, hval, hv⟩ | ⟨hone, ⟨v, hval⟩, rfl, -⟩ | ⟨htwo, len, k, hv, hval, rfl, hlen⟩ |
    ⟨hfive, ⟨v, hval⟩, rfl, -⟩ := Protobuf.readValue_cases hvalue
  · simp only [hzero, hv, hstop, Response.set, hval]
    by_cases hstatus : f.number = 1
    · rw [if_pos ⟨hstatus, trivial⟩, if_pos hstatus]
      rfl
    · rw [if_neg (fun hand => hstatus hand.1), if_neg (by omega), if_neg (by omega), if_pos trivial,
        if_neg hstatus]
      rfl
  · simp only [hone, hstop, Response.set, hval]
    rw [if_neg (by omega), if_neg (by omega), if_neg (by omega), if_neg (by omega),
      if_neg (by omega), if_neg (by omega), if_pos trivial]
    rfl
  · obtain ⟨hdata, hskip⟩ := readLenField_value hpos hwidth hv hlen
    rw [Nat.add_assoc i n (k + len.toNat)] at hdata hskip
    simp only [htwo, hv, hdata, ok_bind, hskip, Response.set, hval]
    rw [if_neg (by omega)]
    by_cases hnumber2 : f.number = 2
    · rw [if_pos ⟨hnumber2, trivial⟩, if_pos hnumber2, hheader _ hnumber2 hval]
      cases header (((raw.drop (i + n)).drop k).take len.toNat) with
      | none =>
          simp only [ok_bind, Option.toList_none, List.append_nil]
          rfl
      | some header => rfl
    · rw [if_neg (fun hand => hnumber2 hand.1), if_neg hnumber2]
      by_cases hnumber3 : f.number = 3
      · rw [if_pos ⟨hnumber3, trivial⟩, if_pos hnumber3]
        rfl
      · rw [if_neg (fun hand => hnumber3 hand.1), if_neg hnumber3, if_neg (by omega),
          if_pos trivial]
        rfl
  · simp only [hfive, hstop, Response.set, hval]
    rw [if_neg (by omega), if_neg (by omega), if_neg (by omega), if_neg (by omega),
      if_neg (by omega), if_pos trivial]
    rfl

theorem decodeHttpResponse_parse {fields : List Field} (h : Protobuf.parse raw = some fields)
    (hwidth : raw.length < 2 ^ bits) (hheaders : ∀ f ∈ fields, ReadsHeader bits header f) :
    decodeHttpResponse bits raw = .ok (some (fields.foldl (Response.set header) {})) := by
  have hloop : (∀ f ∈ fields, ReadsHeader bits header f) → ∀ fuel response,
      raw.length - 0 < fuel → decodeResponseLoop bits raw fuel 0 response =
        .ok (some (fields.foldl (Response.set header) response)) := by
    apply Protobuf.parse_induct h
      (motive := fun i fields => (∀ f ∈ fields, ReadsHeader bits header f) → ∀ fuel response,
        raw.length - i < fuel → decodeResponseLoop bits raw fuel i response =
          .ok (some (fields.foldl (Response.set header) response)))
    · rintro i hend - fuel response hfuel
      obtain ⟨fuel, rfl⟩ : ∃ k, fuel = k + 1 := ⟨fuel - 1, by omega⟩
      rw [decodeResponseLoop, if_neg (Nat.not_lt_of_le hend)]
      rfl
    · intro i f size rest hlt hread hmore hsize ih hheaders fuel response hfuel
      obtain ⟨fuel, rfl⟩ : ∃ k, fuel = k + 1 := ⟨fuel - 1, by omega⟩
      obtain ⟨hheader, hheaders⟩ := List.forall_mem_cons.mp hheaders
      have hstep := decodeResponseField_read response hread (Nat.le_of_lt hlt) hwidth hheader
      rw [decodeResponseLoop, if_pos hlt, hstep]
      exact ih hheaders fuel (response.set header f) (by omega)
  exact hloop hheaders (raw.length + 1) {} (by omega)

end Parsed

/-! ## Responses as protobuf writes them -/

theorem foldl_headers {header : Bytes → Option (Str × Str)} {headers : List Proto.Header}
    (hread : ∀ h ∈ headers, header (Protobuf.encode h.fields) = some (h.key, h.value))
    (response : Response) :
    (headers.map fun h =>
      (⟨2, .len (Protobuf.encode h.fields), Protobuf.isNumber_two⟩ : Field)).foldl
        (Response.set header) response =
      { response with headers := response.headers ++ headers.map fun h => (h.key, h.value) } := by
  induction headers generalizing response with
  | nil => simp only [List.map_nil, List.foldl_nil, List.append_nil]
  | cons h headers ih =>
      obtain ⟨hfirst, hread⟩ := List.forall_mem_cons.mp hread
      have hset : response.set header
          ⟨2, .len (Protobuf.encode h.fields), Protobuf.isNumber_two⟩ =
          { response with headers := response.headers ++ [(h.key, h.value)] } := by
        simp only [Response.set, hfirst]
        rfl
      rw [List.map_cons, List.foldl_cons, hset, ih hread]
      simp only [List.append_assoc, List.map_cons, List.cons_append, List.nil_append]

theorem mem_fields_header {r : Proto.HttpResponse} {trailers : Option Proto.Trailers} {f : Field}
    {data : Bytes} (hf : f ∈ r.fields trailers) (hnumber : f.number = 2)
    (hvalue : f.value = .len data) : ∃ h ∈ r.headers, Protobuf.encode h.fields = data := by
  rw [Proto.HttpResponse.fields, List.mem_append, List.mem_append, List.mem_append] at hf
  obtain ((hf | hf) | hf) | hf := hf
  · split at hf
    · cases hf
    · cases List.mem_singleton.mp hf
      cases hnumber
  · obtain ⟨h, hmem, rfl⟩ := List.mem_map.mp hf
    exact ⟨h, hmem, Value.len.inj hvalue⟩
  · split at hf
    · cases hf
    · cases List.mem_singleton.mp hf
      cases hnumber
  · obtain ⟨t, -, rfl⟩ := List.mem_map.mp hf
    cases hnumber

theorem decodeHeader_of_response {bits : Nat} {r : Proto.HttpResponse}
    {trailers : Option Proto.Trailers} (hwidth : (r.wire trailers).length < 2 ^ bits)
    (hsize : (r.wire trailers).length < 2 ^ 64) {h : Proto.Header} (hmem : h ∈ r.headers)
    (hkey : h.key ≠ []) :
    decodeHeader bits (Protobuf.encode h.fields) = .ok (some (h.key, h.value)) := by
  have hfield : (⟨2, .len (Protobuf.encode h.fields), Protobuf.isNumber_two⟩ : Field) ∈
      r.fields trailers :=
    List.mem_append_left _ (List.mem_append_left _ (List.mem_append_right _
      (List.mem_map_of_mem hmem)))
  have hlength : (Protobuf.encode h.fields).length ≤ (r.wire trailers).length :=
    Protobuf.length_data_le hfield rfl
  rw [encode_headerFields] at hlength ⊢
  rw [decodeHeader_wire (by omega) (by omega), if_neg (mt List.isEmpty_iff.mp hkey)]

theorem foldl_fields {header : Bytes → Option (Str × Str)} {r : Proto.HttpResponse}
    (trailers : Option Proto.Trailers) (hstatus : r.status ≠ 0)
    (hread : ∀ h ∈ r.headers, header (Protobuf.encode h.fields) = some (h.key, h.value)) :
    (r.fields trailers).foldl (Response.set header) {} =
      ⟨r.status, r.headers.map fun h => (h.key, h.value), r.body⟩ := by
  have hfirst : ([⟨1, .varint r.status.toUInt64, Protobuf.isNumber_one⟩] : List Field).foldl
      (Response.set header) {} = { status := r.status } := by
    show ({ status := r.status.toUInt64.toUInt32 } : Response) = _
    rw [UInt32.toUInt32_toUInt64]
  have hlast (response : Response) : (trailers.toList.map fun t =>
      (⟨4, .len (Protobuf.encode t.fields), Protobuf.isNumber_four⟩ : Field)).foldl
      (Response.set header) response = response := by
    cases trailers <;> rfl
  rw [Proto.HttpResponse.fields, if_neg hstatus, List.foldl_append, List.foldl_append,
    List.foldl_append, hfirst, foldl_headers hread, hlast]
  by_cases hbody : r.body = []
  · rw [if_pos hbody, hbody]
    rfl
  · rw [if_neg hbody]
    rfl

/-- `decode_http_response` undoes the serialization of a response: status, headers in
their order and body, and nothing of the trailers. -/
theorem decodeHttpResponse_wire {bits : Nat} {r : Proto.HttpResponse}
    {trailers : Option Proto.Trailers} (hbits : 32 ≤ bits) (hstatus : r.status ≠ 0)
    (hkeys : ∀ h ∈ r.headers, h.key ≠ []) (hsize : (r.wire trailers).length < 2 ^ 31) :
    decodeHttpResponse bits (r.wire trailers) =
      .ok (some ⟨r.status, r.headers.map fun h => (h.key, h.value), r.body⟩) := by
  have hpow : 2 ^ 32 ≤ 2 ^ bits := Nat.pow_le_pow_right (by omega) hbits
  have hwidth : (r.wire trailers).length < 2 ^ bits := by omega
  have hlong : (r.wire trailers).length < 2 ^ 64 := by omega
  have hheader : ∀ h ∈ r.headers, decodeHeader bits (Protobuf.encode h.fields) =
      .ok (some (h.key, h.value)) :=
    fun h hmem => decodeHeader_of_response hwidth hlong hmem (hkeys h hmem)
  let header (data : Bytes) : Option (Str × Str) :=
    match decodeHeader bits data with
    | .ok header => header
    | .error _ => none
  have hreads : ∀ f ∈ r.fields trailers, ReadsHeader bits header f := by
    intro f hf data hnumber hvalue
    obtain ⟨h, hmem, rfl⟩ := mem_fields_header hf hnumber hvalue
    simp only [header, hheader h hmem]
  have hlist : ∀ h ∈ r.headers, header (Protobuf.encode h.fields) = some (h.key, h.value) := by
    intro h hmem
    simp only [header, hheader h hmem]
  have hparse := Protobuf.parse_encode (Protobuf.fits_of_length hlong)
  rw [← foldl_fields trailers hstatus hlist]
  exact decodeHttpResponse_parse hparse hwidth hreads

/-- Two headers, one without a value, a body and trailers. -/
theorem decodeHttpResponse_wire_trailers :
    decodeHttpResponse 32 (Proto.HttpResponse.wire
        ⟨404, [⟨"a".toList, .value "b".toList⟩, ⟨"a".toList, .value []⟩], [0x78]⟩
        (some ⟨[⟨"t".toList, .value "1".toList⟩]⟩)) =
      .ok (some ⟨404, [("a".toList, "b".toList), ("a".toList, [])], [0x78]⟩) :=
  decodeHttpResponse_wire (Nat.le_refl 32) (by decide) (by decide) (by decide)

end Grpcgi.Wasm.HttpBridge
