import Grpcgi.Data.ProtoWire
import Grpcgi.Wasm.HttpBridge

/-!
# The WASM HTTP filter, response side

`decode_header` of `wasm/http-bridge/src/lib.rs`, with the `read_varint` of that
crate and `String::from_utf8_lossy`. The arms of its `match` know the fields `key`
and `value` of a `Header`. Any other field with a length is skipped, and
`raw_value` is one of them.
-/

namespace Grpcgi.Wasm.HttpBridge

/-! ## Lossy decoding -/

/-- `utf8_char_width`. -/
def utf8CharWidth (b : UInt8) : Nat :=
  if b < 0x80 then 1
  else if b < 0xC2 then 0
  else if b < 0xE0 then 2
  else if b < 0xF0 then 3
  else if b < 0xF5 then 4
  else 0

def isContinuation (b : UInt8) : Bool := b &&& 0xC0 == 0x80

/-- The second bytes that a first byte of three or four allows. -/
def allowsSecond (first second : UInt8) : Bool :=
  if first = 0xE0 then 0xA0 ≤ second && second ≤ 0xBF
  else if first = 0xED then 0x80 ≤ second && second ≤ 0x9F
  else if first = 0xF0 then 0x90 ≤ second && second ≤ 0xBF
  else if first = 0xF4 then 0x80 ≤ second && second ≤ 0x8F
  else 0x80 ≤ second && second ≤ 0xBF

/-- How many bytes one replacement character stands for: the longest beginning of
an encoded character, and at least one. -/
def invalidLength (bs : Bytes) : Nat :=
  let first := bs.getD 0 0
  let width := utf8CharWidth first
  if 3 ≤ width ∧ allowsSecond first (bs.getD 1 0) then
    if width = 4 ∧ isContinuation (bs.getD 2 0) then 3 else 2
  else 1

/-- The characters of bytes that may be invalid; `fuel` is their number. -/
def lossyChars : Nat → Bytes → Str
  | 0, _ => []
  | _ + 1, [] => []
  | fuel + 1, b :: bs =>
    let width := utf8CharWidth b
    match utf8Decode ((b :: bs).take width) with
    | some [c] => c :: lossyChars fuel ((b :: bs).drop width)
    | _ => '\uFFFD' :: lossyChars fuel ((b :: bs).drop (invalidLength (b :: bs)))

/-- `String::from_utf8_lossy`, which leaves valid UTF-8 as it is. -/
def fromUtf8Lossy (bs : Bytes) : Str :=
  match utf8Decode bs with
  | some s => s
  | none => lossyChars bs.length bs

example : fromUtf8Lossy [0x61, 0xE2, 0x82, 0xF0, 0x28] =
    ['a', '\uFFFD', '\uFFFD', '('] := by decide

@[simp] theorem fromUtf8Lossy_utf8Encode (s : Str) : fromUtf8Lossy (utf8Encode s) = s := by
  simp only [fromUtf8Lossy, utf8Decode_utf8Encode]

theorem fromUtf8Lossy_ne_nil {bs : Bytes} (h : bs ≠ []) : fromUtf8Lossy bs ≠ [] := by
  rw [fromUtf8Lossy]
  split
  · rename_i s hdecode
    rintro rfl
    exact h (utf8Encode_utf8Decode hdecode).symm
  · obtain ⟨b, bs, rfl⟩ := List.exists_cons_of_ne_nil h
    rw [List.length_cons, lossyChars]
    split <;> exact List.cons_ne_nil _ _

/-! ## Decoding -/

/-- The loop of `read_varint`. -/
def readVarintLoop : Bytes → UInt64 → Nat → Nat → Option (UInt64 × Nat)
  | [], _, _, _ => none
  | b :: rest, val, shift, i =>
    let val := val ||| ((b &&& 0x7F).toUInt64 <<< UInt64.ofNat shift)
    if b &&& 0x80 = 0 then some (val, i + 1)
    else if 64 ≤ shift + 7 then none
    else readVarintLoop rest val (shift + 7) (i + 1)

/-- `read_varint`. -/
def readVarint (buf : Bytes) : Option (UInt64 × Nat) := readVarintLoop buf 0 0 0

/-- How an iteration of a decoding loop ends. -/
inductive Iteration (σ : Type) where
  | next (pos : Nat) (state : σ)
  /-- `break` -/
  | done
  /-- `return None` -/
  | invalid
  deriving DecidableEq, Repr

/-- `read_varint(&msg[pos..])`. -/
def readVarintAt (msg : Bytes) (pos : Nat) : Except Trap (Option (UInt64 × Nat)) := do
  return readVarint (← slice msg pos msg.length)

/-- `&msg[pos..pos + len as usize]` after the length at `pos`, and where it ends. -/
def readLenField (bits : Nat) (msg : Bytes) (pos : Nat) :
    Except Trap (Option (Bytes × Nat)) := do
  match ← readVarintAt msg pos with
  | none => return none
  | some (len, n) =>
    let pos := usize bits (pos + n)
    let stop := usize bits (pos + usize bits len.toNat)
    return some (← slice msg pos stop, stop)

/-- One iteration of the loop of `decode_header`, with `key` and `val`. -/
def decodeHeaderField (bits : Nat) (msg : Bytes) (pos : Nat) (header : Str × Str) :
    Except Trap (Iteration (Str × Str)) := do
  match ← readVarintAt msg pos with
  | none => return .invalid
  | some (tag, n) =>
    let pos := usize bits (pos + n)
    let field := (tag >>> 3).toNat % 2 ^ 32
    let wire := (tag &&& 0x7).toNat
    if field = 1 ∧ wire = 2 then
      match ← readLenField bits msg pos with
      | none => return .invalid
      | some (key, pos) => return .next pos (fromUtf8Lossy key, header.2)
    else if field = 2 ∧ wire = 2 then
      match ← readLenField bits msg pos with
      | none => return .invalid
      | some (val, pos) => return .next pos (header.1, fromUtf8Lossy val)
    else if wire = 0 then
      match ← readVarintAt msg pos with
      | none => return .invalid
      | some (_, n) => return .next (usize bits (pos + n)) header
    else if wire = 2 then
      match ← readVarintAt msg pos with
      | none => return .invalid
      | some (len, n) =>
        let pos := usize bits (pos + n)
        return .next (usize bits (pos + usize bits len.toNat)) header
    else return .done

/-- The loop of `decode_header`. -/
def decodeHeaderLoop (bits : Nat) (msg : Bytes) :
    Nat → Nat → Str × Str → Except Trap (Option (Str × Str))
  | 0, _, _ => .error .diverges
  | fuel + 1, pos, header =>
    if pos < msg.length then
      match decodeHeaderField bits msg pos header with
      | .error e => .error e
      | .ok .invalid => .ok none
      | .ok .done => .ok (some header)
      | .ok (.next pos header) => decodeHeaderLoop bits msg fuel pos header
    else .ok (some header)

/-- `decode_header`. As in the WebSocket filter, a loop that takes more iterations
than there are positions never ends. -/
def decodeHeader (bits : Nat) (msg : Bytes) : Except Trap (Option (Str × Str)) := do
  match ← decodeHeaderLoop bits msg (msg.length + 1) 0 ([], []) with
  | none => return none
  | some (key, val) => return if key.isEmpty then none else some (key, val)

/-! ## Reading inside the buffer -/

@[simp] theorem ok_bind {ε α β : Type} (x : α) (f : α → Except ε β) :
    (Except.ok x >>= f) = f x := rfl

/-- Both filters read varints alike. -/
theorem readVarintLoop_eq (buf : Bytes) (val : UInt64) (shift i : Nat) :
    readVarintLoop buf val shift i = Wasm.readVarintLoop buf val shift i := by
  have hlow : ∀ b : UInt8, (b &&& 0x7F).toUInt64 = b.toUInt64 &&& 0x7F := by
    intro b
    apply UInt64.toNat_inj.mp
    rw [UInt8.toNat_toUInt64, UInt8.toNat_and, UInt64.toNat_and, UInt8.toNat_toUInt64]
    rfl
  have hhigh : ∀ b : UInt8, b &&& 0x80 = 0 ↔ b.toUInt64 &&& 0x80 = 0 := by
    intro b
    rw [← UInt8.toNat_inj, ← UInt64.toNat_inj, UInt8.toNat_and, UInt64.toNat_and,
      UInt8.toNat_toUInt64]
    rfl
  induction buf generalizing val shift i with
  | nil => rfl
  | cons b rest ih =>
      simp only [readVarintLoop, Wasm.readVarintLoop, hlow, hhigh, ih]

section Reading

variable {bits : Nat} {msg : Bytes} {pos : Nat}

theorem readVarintAt_eq (hpos : pos ≤ msg.length) :
    readVarintAt msg pos = .ok (Protobuf.readVarint (msg.drop pos)) := by
  have hslice : slice msg pos msg.length = .ok (msg.drop pos) := by
    rw [slice, if_neg (Nat.not_lt_of_le hpos), if_neg (Nat.lt_irrefl _),
      List.take_of_length_le (by rw [List.length_drop])]
  have hread : readVarint (msg.drop pos) = Protobuf.readVarint (msg.drop pos) := by
    rw [readVarint, readVarintLoop_eq]
    exact Wasm.readVarint_eq (msg.drop pos) 0
  simp only [readVarintAt, hslice, ok_bind, hread]
  rfl

/-- The data of a field whose length has been read, if it is inside the buffer. -/
theorem readLenField_eq (hpos : pos ≤ msg.length) (hwidth : msg.length < 2 ^ bits) {len : UInt64}
    {n : Nat} (hlen : Protobuf.readVarint (msg.drop pos) = some (len, n)) :
    (pos + n + len.toNat % 2 ^ bits ≤ msg.length ∧
      readLenField bits msg pos = .ok (some ((msg.drop (pos + n)).take (len.toNat % 2 ^ bits),
        pos + n + len.toNat % 2 ^ bits))) ∨
    (msg.length < pos + n + len.toNat % 2 ^ bits ∧
      ∃ e, readLenField bits msg pos = .error e) := by
  obtain ⟨-, hn, -⟩ := Protobuf.readVarint_size hlen
  rw [List.length_drop] at hn
  have hmod := Nat.mod_lt len.toNat (Nat.two_pow_pos bits)
  have hstart : usize bits (pos + n) = pos + n := usize_of_lt (by omega)
  have hcast : usize bits len.toNat = len.toNat % 2 ^ bits := rfl
  simp only [readLenField, readVarintAt_eq hpos, ok_bind, hlen, hstart, hcast]
  by_cases hfits : pos + n + len.toNat % 2 ^ bits ≤ msg.length
  · refine .inl ⟨hfits, ?_⟩
    rw [usize_of_lt (by omega), slice, if_neg (by omega), if_neg (by omega),
      Nat.add_sub_cancel_left]
    rfl
  · refine .inr ⟨Nat.lt_of_not_le hfits, ?_⟩
    by_cases hwraps : pos + n + len.toNat % 2 ^ bits < 2 ^ bits
    · refine ⟨.sliceEnd, ?_⟩
      rw [usize_of_lt hwraps, slice, if_neg (by omega), if_pos (by omega)]
      rfl
    · have hstop : usize bits (pos + n + len.toNat % 2 ^ bits) =
          pos + n + len.toNat % 2 ^ bits - 2 ^ bits := by
        rw [usize, Nat.mod_eq_sub_mod (Nat.le_of_not_lt hwraps), Nat.mod_eq_of_lt (by omega)]
      refine ⟨.sliceOrder, ?_⟩
      rw [hstop, slice, if_pos (by omega)]
      rfl

theorem readLenField_value (hpos : pos ≤ msg.length) (hwidth : msg.length < 2 ^ bits)
    {len : UInt64} {n : Nat} (hlen : Protobuf.readVarint (msg.drop pos) = some (len, n))
    (hinside : n + len.toNat ≤ (msg.drop pos).length) :
    readLenField bits msg pos =
        .ok (some (((msg.drop pos).drop n).take len.toNat, pos + (n + len.toNat))) ∧
      usize bits (usize bits (pos + n) + usize bits len.toNat) = pos + (n + len.toNat) := by
  rw [List.length_drop] at hinside
  have hcast : len.toNat % 2 ^ bits = len.toNat := Nat.mod_eq_of_lt (by omega)
  constructor
  · obtain ⟨-, hok⟩ | ⟨hout, -⟩ := readLenField_eq hpos hwidth hlen
    · rw [hok, hcast, List.drop_drop, Nat.add_assoc]
    · omega
  · rw [usize_of_lt (show pos + n < 2 ^ bits by omega),
      usize_of_lt (show len.toNat < 2 ^ bits by omega), usize_of_lt (by omega), Nat.add_assoc]

end Reading

/-! ## Messages that parse -/

open Protobuf (Field)

/-- What the field does to `key` and `val`. -/
def setField (fieldNum : UInt64) (data : Bytes) (header : Str × Str) : Str × Str :=
  if fieldNum = 1 then (fromUtf8Lossy data, header.2)
  else if fieldNum = 2 then (header.1, fromUtf8Lossy data)
  else header

def setLen (header : Str × Str) (f : Field) : Str × Str :=
  match f.value with
  | .len data => setField (UInt64.ofNat f.number) data header
  | _ => header

/-- One iteration on a field that is not of fixed width, wherever it stands. -/
theorem decodeHeaderField_read {bits : Nat} {msg : Bytes} {i : Nat} {f : Field} {size : Nat}
    (header : Str × Str) (h : Protobuf.readField (msg.drop i) = some (f, size))
    (hi : i ≤ msg.length) (hwidth : msg.length < 2 ^ bits)
    (hskips : f.value.wireType = 0 ∨ f.value.wireType = 2) :
    decodeHeaderField bits msg i header = .ok (.next (i + size) (setLen header f)) := by
  obtain ⟨tag, n, m, ⟨hread, hwire, hfield, hvalue, hinside, hstart, hstop⟩, rfl⟩ :=
    readField_at h hi hwidth
  have hpos : i + n ≤ msg.length := by omega
  have hnat : (UInt64.ofNat f.number).toNat = f.number := by
    have hbounded := f.bounded
    rw [UInt64.toNat_ofNat']
    omega
  have hkey : UInt64.ofNat f.number = 1 ↔ f.number = 1 := by
    rw [← UInt64.toNat_inj, hnat]
    rfl
  have hval : UInt64.ofNat f.number = 2 ↔ f.number = 2 := by
    rw [← UInt64.toNat_inj, hnat]
    rfl
  simp only [decodeHeaderField, readVarintAt_eq hi, ok_bind, hread, hstart, hwire, hfield,
    readVarintAt_eq hpos]
  obtain ⟨hzero, v, hkind, hv⟩ | ⟨-, ⟨v, hkind⟩, -⟩ | ⟨htwo, len, k, hv, hkind, rfl, hlen⟩ |
    ⟨-, ⟨v, hkind⟩, -⟩ := Protobuf.readValue_cases hvalue
  · simp only [hzero, hv, hstop, setLen, hkind]
    rw [if_neg (by omega), if_neg (by omega), if_pos trivial]
    rfl
  · rw [hkind] at hskips
    simp only [Protobuf.Value.wireType] at hskips
    omega
  · obtain ⟨hdata, hskip⟩ := readLenField_value hpos hwidth hv hlen
    rw [Nat.add_assoc i n (k + len.toNat)] at hdata hskip
    simp only [htwo, hv, hdata, ok_bind, hskip, setLen, hkind, setField, hkey, hval]
    by_cases hone : f.number = 1
    · rw [if_pos ⟨hone, trivial⟩, if_pos hone]
      rfl
    · rw [if_neg (fun hand => hone hand.1), if_neg hone]
      by_cases htwo : f.number = 2
      · rw [if_pos ⟨htwo, trivial⟩, if_pos htwo]
        rfl
      · rw [if_neg (fun hand => htwo hand.1), if_neg htwo, if_neg (by omega), if_pos trivial]
        rfl
  · rw [hkind] at hskips
    simp only [Protobuf.Value.wireType] at hskips
    omega

/-- `decode_header` goes through a message field by field. -/
theorem decodeHeader_parse {bits : Nat} {msg : Bytes} {fields : List Field}
    (h : Protobuf.parse msg = some fields) (hwidth : msg.length < 2 ^ bits)
    (hskips : ∀ f ∈ fields, f.value.wireType = 0 ∨ f.value.wireType = 2) {key val : Str}
    (hheader : fields.foldl setLen ([], []) = (key, val)) :
    decodeHeader bits msg = .ok (if key.isEmpty then none else some (key, val)) := by
  have hloop : (∀ f ∈ fields, f.value.wireType = 0 ∨ f.value.wireType = 2) →
      ∀ fuel header, msg.length - 0 < fuel → decodeHeaderLoop bits msg fuel 0 header =
        .ok (some (fields.foldl setLen header)) := by
    apply Protobuf.parse_induct h
      (motive := fun i fields => (∀ f ∈ fields, f.value.wireType = 0 ∨ f.value.wireType = 2) →
        ∀ fuel header, msg.length - i < fuel → decodeHeaderLoop bits msg fuel i header =
          .ok (some (fields.foldl setLen header)))
    · rintro i hend - fuel header hfuel
      obtain ⟨fuel, rfl⟩ : ∃ k, fuel = k + 1 := ⟨fuel - 1, by omega⟩
      rw [decodeHeaderLoop, if_neg (Nat.not_lt_of_le hend)]
      rfl
    · intro i f size rest hlt hread hmore hsize ih hskips fuel header hfuel
      obtain ⟨fuel, rfl⟩ : ∃ k, fuel = k + 1 := ⟨fuel - 1, by omega⟩
      obtain ⟨hskip, hskips⟩ := List.forall_mem_cons.mp hskips
      have hstep := decodeHeaderField_read header hread (Nat.le_of_lt hlt) hwidth hskip
      rw [decodeHeaderLoop, if_pos hlt, hstep]
      exact ih hskips fuel (setLen header f) (by omega)
  have hall := hloop hskips (msg.length + 1) ([], []) (by omega)
  rw [hheader] at hall
  rw [decodeHeader, hall]
  rfl

/-! ## Headers as they are written -/

theorem pushLenField_eq (f : Field) {data : Bytes} (hvalue : f.value = .len data) :
    pushLenField (UInt64.ofNat f.number) data = f.encode := by
  have htag : (UInt64.ofNat f.number <<< 3) ||| 2 = f.tag := by
    have hnumber := f.bounded
    have hthree : (3 : UInt64) = UInt64.ofNat 3 := rfl
    have hnat : (UInt64.ofNat f.number).toNat = f.number := by
      rw [UInt64.toNat_ofNat']
      omega
    rw [UInt64.or_comm, hthree, or_shift_ofNat (by decide) (by decide), hnat, Field.tag, hvalue]
    congr 1
    show 2 + f.number * 2 ^ 3 = 8 * f.number + 2
    omega
  rw [pushLenField, Field.encode, hvalue, Protobuf.Value.encode]
  simp only [htag, writeVarint, writeVarint_eq, List.append_assoc]

def pushFields (fields : List (UInt64 × Bytes)) : Bytes :=
  fields.flatMap fun f => pushLenField f.1 f.2

def valueFields : Proto.ValueKind → List (UInt64 × Bytes)
  | .unset => []
  | .value value => [(2, utf8Encode value)]
  | .rawValue rawValue => [(3, rawValue)]

/-- The fields of a `Header` in the order of their numbers: an empty key is left
out, and the arm of the oneof is there if it is set. -/
def headerFields (h : Proto.Header) : List (UInt64 × Bytes) :=
  (if h.key = [] then [] else [(1, utf8Encode h.key)]) ++ valueFields h.valueKind

/-- A `Header` on the wire is what `decode_header` knows how to read. -/
theorem encode_headerFields (h : Proto.Header) :
    Protobuf.encode h.fields = pushFields (headerFields h) := by
  have hkey := pushLenField_eq ⟨1, .len (utf8Encode h.key), Protobuf.isNumber_one⟩ rfl
  have hnone : pushFields [] = [] := rfl
  have hone (number : UInt64) (data : Bytes) :
      pushFields [(number, data)] = pushLenField number data := List.append_nil _
  have hvalue : Protobuf.encode h.valueKind.fields = pushFields (valueFields h.valueKind) := by
    cases h.valueKind with
    | unset => rfl
    | value value =>
        have hfield := pushLenField_eq ⟨2, .len (utf8Encode value), Protobuf.isNumber_two⟩ rfl
        rw [valueFields, hone]
        exact (List.append_nil _).trans hfield.symm
    | rawValue rawValue =>
        have hfield := pushLenField_eq ⟨3, .len rawValue, Protobuf.isNumber_three⟩ rfl
        rw [valueFields, hone]
        exact (List.append_nil _).trans hfield.symm
  rw [Proto.Header.fields, headerFields, Protobuf.encode_append, hvalue, pushFields, pushFields,
    List.flatMap_append]
  congr 1
  by_cases hempty : h.key = []
  · rw [if_pos hempty, if_pos hempty]
    rfl
  · rw [if_neg hempty, if_neg hempty]
    exact (List.append_nil _).trans (hkey.symm.trans (List.append_nil _).symm)

theorem wireType_headerField {h : Proto.Header} {f : Field} (hf : f ∈ h.fields) :
    f.value.wireType = 2 := by
  obtain ⟨key, valueKind⟩ := h
  obtain hf | hf := List.mem_append.mp hf
  · split at hf
    · cases hf
    · cases List.mem_singleton.mp hf
      rfl
  · cases valueKind with
    | unset => cases hf
    | value value =>
        cases List.mem_singleton.mp hf
        rfl
    | rawValue rawValue =>
        cases List.mem_singleton.mp hf
        rfl

/-- What `decode_header` makes of a `Header`: the text of `value`, and nothing of
`raw_value`. -/
theorem decodeHeader_wire {bits : Nat} {h : Proto.Header}
    (hwidth : (pushFields (headerFields h)).length < 2 ^ bits)
    (hsize : (pushFields (headerFields h)).length < 2 ^ 64) :
    decodeHeader bits (pushFields (headerFields h)) =
      .ok (if h.key.isEmpty then none else some (h.key, h.value)) := by
  rw [← encode_headerFields] at hwidth hsize ⊢
  apply decodeHeader_parse (Protobuf.parse_encode (Protobuf.fits_of_length hsize)) hwidth
  · intro f hf
    exact .inr (wireType_headerField hf)
  · obtain ⟨key, valueKind⟩ := h
    by_cases hkey : key = []
    · cases valueKind <;> simp [Proto.Header.fields, Proto.ValueKind.fields, hkey, setLen, setField,
        Proto.Header.value]
    · cases valueKind <;> simp [Proto.Header.fields, Proto.ValueKind.fields, hkey, setLen, setField,
        Proto.Header.value]

end Grpcgi.Wasm.HttpBridge
