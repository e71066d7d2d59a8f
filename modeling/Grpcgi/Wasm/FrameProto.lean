import Grpcgi.Protobuf.Wire
import Grpcgi.Wasm.Codec

/-!
# The `Frame` message codec of the WASM filter

`encode_frame_proto` and `decode_frame_proto` of `wasm/src/lib.rs` with their
varint helpers. The decoder reads every message that the wire format allows as
proto3 defines it, and so reads what the encoder writes as what it was given.
-/

namespace Grpcgi.Wasm

/-- The loop of `write_varint`. -/
def writeVarintLoop : Nat → UInt64 → Bytes
  | 0, _ => []
  | fuel + 1, v =>
    let byte := (v &&& 0x7F).toUInt8
    let v := v >>> 7
    if v = 0 then [byte] else (byte ||| 0x80) :: writeVarintLoop fuel v

/-- `write_varint`. Ten groups of seven bits hold every `u64`. -/
def writeVarint (v : UInt64) : Bytes := writeVarintLoop 10 v

/-- The loop of `read_varint` from the byte at `i` on. -/
def readVarintLoop : Bytes → UInt64 → Nat → Nat → Option (UInt64 × Nat)
  | [], _, _, _ => none
  | b :: rest, result, shift, n =>
    let byte := b.toUInt64
    let result := result ||| ((byte &&& 0x7F) <<< UInt64.ofNat shift)
    if byte &&& 0x80 = 0 then some (result, n + 1)
    else if 64 ≤ shift + 7 then none
    else readVarintLoop rest result (shift + 7) (n + 1)

/-- `read_varint`: the value and the number of bytes read. -/
def readVarint (buf : Bytes) (offset : Nat) : Option (UInt64 × Nat) :=
  readVarintLoop (buf.drop offset) 0 0 0

/-- `skip_field`. -/
def skipField (bits : Nat) (buf : Bytes) (i wireType : Nat) : Option Nat :=
  match wireType with
  | 0 =>
    match readVarint buf i with
    | none => none
    | some (_, n) => some (usize bits (i + n))
  | 1 => if buf.length < usize bits (i + 8) then none else some (usize bits (i + 8))
  | 2 =>
    match readVarint buf i with
    | none => none
    | some (len, n) =>
      let i := usize bits (i + n)
      let len := usize bits len.toNat
      if buf.length < usize bits (i + len) then none else some (usize bits (i + len))
  | 5 => if buf.length < usize bits (i + 4) then none else some (usize bits (i + 4))
  | _ => none

/-- `encode_frame_proto`. -/
def encodeFrameProto (payload : Bytes) (binary : Bool) : Bytes :=
  (if payload.isEmpty then []
    else 0x0A :: (writeVarint (UInt64.ofNat payload.length) ++ payload)) ++
  (if binary then [0x10, 0x01] else [])

/-- What the decoder has read so far. -/
structure FrameProto where
  payload : Bytes := []
  binary : Bool := false
  deriving DecidableEq, Repr

/-- One iteration of the loop of `decode_frame_proto`: the next `i`, or `none`
for an early return of `None`. -/
def decodeFrameField (bits : Nat) (proto : Bytes) (i : Nat) (frame : FrameProto) :
    Except Trap (Option (Nat × FrameProto)) :=
  match readVarint proto i with
  | none => .ok none
  | some (tagAndWire, n) =>
    let i := usize bits (i + n)
    let wireType := (tagAndWire &&& 0x07).toNat
    let fieldNumber := (tagAndWire >>> 3).toNat % 2 ^ 32
    if fieldNumber = 1 ∧ wireType = 2 then
      match readVarint proto i with
      | none => .ok none
      | some (len, n) =>
        let i := usize bits (i + n)
        let len := usize bits len.toNat
        if proto.length < usize bits (i + len) then .ok none
        else do
          let payload ← slice proto i (usize bits (i + len))
          return some (usize bits (i + len), { frame with payload })
    else if fieldNumber = 2 ∧ wireType = 0 then
      match readVarint proto i with
      | none => .ok none
      | some (v, n) => .ok (some (usize bits (i + n), { frame with binary := v != 0 }))
    else
      match skipField bits proto i wireType with
      | none => .ok none
      | some i => .ok (some (i, frame))

/-- The loop of `decode_frame_proto`. -/
def decodeFrameLoop (bits : Nat) (proto : Bytes) :
    Nat → Nat → FrameProto → Except Trap (Option FrameProto)
  | 0, _, _ => .error .diverges
  | fuel + 1, i, frame =>
    if i < proto.length then
      match decodeFrameField bits proto i frame with
      | .error e => .error e
      | .ok none => .ok none
      | .ok (some (i, frame)) => decodeFrameLoop bits proto fuel i frame
    else .ok (some frame)

/-- `decode_frame_proto`. Where `i` moves depends on `i` alone, so a loop that
takes more iterations than there are positions comes back to one and never
ends. -/
def decodeFrameProto (bits : Nat) (data : Bytes) : Except Trap (Option FrameProto) :=
  decodeFrameLoop bits data (data.length + 1) 0 {}

/-! ## Varints -/

theorem low7_toNat (v : UInt64) : (v &&& 0x7F).toNat = v.toNat % 128 := by
  rw [UInt64.toNat_and]
  exact Nat.and_two_pow_sub_one_eq_mod _ 7

theorem shift7_toNat (v : UInt64) : (v >>> 7).toNat = v.toNat / 128 := by
  rw [UInt64.toNat_shiftRight]
  exact Nat.shiftRight_eq_div_pow _ _

/-- A group of seven bits with its continuation bit. -/
theorem group_toNat (v : UInt64) :
    (v &&& 0x7F).toUInt8.toNat = v.toNat % 128 ∧
      ((v &&& 0x7F).toUInt8 ||| 0x80).toNat = v.toNat % 128 + 128 := by
  have hlow : (v &&& 0x7F).toUInt8.toNat = v.toNat % 128 := by
    rw [UInt64.toNat_toUInt8, low7_toNat]
    omega
  refine ⟨hlow, ?_⟩
  rw [UInt8.toNat_or, hlow, Nat.or_comm]
  have hor := Nat.two_pow_add_eq_or_of_lt (i := 7) (Nat.mod_lt v.toNat (by decide : 128 > 0)) 1
  simp only [Nat.mul_one] at hor
  exact hor.symm.trans (Nat.add_comm _ _)

theorem continuation_bit (b : UInt8) : (b.toUInt64 &&& 0x80 = 0) ↔ b.toNat < 128 := by
  have hall : ∀ i : Fin 256, ((UInt8.ofNat i.val).toUInt64 &&& 0x80 = 0) ↔ i.val < 128 := by
    decide +kernel
  simpa using hall ⟨b.toNat, b.toNat_lt⟩

/-- Adding a group above the bits read so far. -/
theorem or_shift_toNat {result x : UInt64} {shift : Nat} (hshift : shift < 64)
    (hresult : result.toNat < 2 ^ shift) (hx : x.toNat * 2 ^ shift < 2 ^ 64) :
    (result ||| (x <<< UInt64.ofNat shift)).toNat = result.toNat + x.toNat * 2 ^ shift := by
  have hmod : (UInt64.ofNat shift).toNat % 64 = shift := by
    rw [UInt64.toNat_ofNat']
    omega
  rw [UInt64.toNat_or, UInt64.toNat_shiftLeft, hmod, Nat.shiftLeft_eq, Nat.mod_eq_of_lt hx,
    Nat.or_comm, ← Nat.shiftLeft_eq, ← Nat.shiftLeft_add_eq_or_of_lt hresult, Nat.add_comm]

/-- `write_varint` ends at the numbers below 128. -/
theorem shift7_eq_zero (v : UInt64) : v >>> 7 = 0 ↔ v.toNat < 128 := by
  rw [← UInt64.toNat_inj, shift7_toNat, UInt64.toNat_zero]
  omega

/-- `write_varint` writes the shortest varint. -/
theorem writeVarintLoop_eq (fuel : Nat) (v : UInt64) :
    writeVarintLoop fuel v = Protobuf.groups fuel v.toNat := by
  induction fuel generalizing v with
  | zero => rfl
  | succ fuel ih =>
      obtain ⟨hlow, hmore⟩ := group_toNat v
      simp only [writeVarintLoop, Protobuf.groups]
      by_cases hlast : v.toNat < 128
      · have hbyte : (v &&& 0x7F).toUInt8 = UInt8.ofNat v.toNat := by
          apply UInt8.toNat_inj.mp
          rw [hlow, UInt8.toNat_ofNat']
          omega
        rw [if_pos ((shift7_eq_zero v).mpr hlast), if_pos hlast, hbyte]
      · have hbyte : (v &&& 0x7F).toUInt8 ||| 0x80 = UInt8.ofNat (v.toNat % 128 + 128) := by
          apply UInt8.toNat_inj.mp
          rw [hmore, UInt8.toNat_ofNat']
          omega
        rw [if_neg (mt (shift7_eq_zero v).mp hlast), if_neg hlast, ih, shift7_toNat, hbyte]

theorem writeVarint_eq (v : UInt64) : writeVarint v = Protobuf.varint v := writeVarintLoop_eq 10 v

theorem length_writeVarint (v : UInt64) : (writeVarint v).length ≤ 10 := by
  rw [writeVarint_eq]
  exact Protobuf.length_groups 10 v.toNat

/-- Adding a group whose high bits may fall off the top. -/
theorem or_shift_ofNat {result x : UInt64} {shift : Nat} (hshift : shift < 64)
    (hresult : result.toNat < 2 ^ shift) :
    result ||| (x <<< UInt64.ofNat shift) = UInt64.ofNat (result.toNat + x.toNat * 2 ^ shift) := by
  have hmod : (UInt64.ofNat shift).toNat % 64 = shift := by
    rw [UInt64.toNat_ofNat']
    omega
  have hpow : 2 ^ 64 = 2 ^ (64 - shift) * 2 ^ shift := by
    rw [← Nat.pow_add]
    congr 1
    omega
  have hhigh : x.toNat * 2 ^ shift % 2 ^ 64 = x.toNat % 2 ^ (64 - shift) * 2 ^ shift := by
    rw [hpow, Nat.mul_mod_mul_right]
  have hfits : result.toNat + x.toNat % 2 ^ (64 - shift) * 2 ^ shift < 2 ^ 64 := by
    have hlt : x.toNat % 2 ^ (64 - shift) + 1 ≤ 2 ^ (64 - shift) :=
      Nat.mod_lt _ (Nat.two_pow_pos _)
    have hmul := Nat.mul_le_mul_right (2 ^ shift) hlt
    rw [← hpow, Nat.add_mul, Nat.one_mul] at hmul
    omega
  apply UInt64.toNat_inj.mp
  rw [UInt64.toNat_or, UInt64.toNat_shiftLeft, hmod, Nat.shiftLeft_eq, hhigh, Nat.or_comm,
    ← Nat.shiftLeft_eq, ← Nat.shiftLeft_add_eq_or_of_lt hresult, Nat.shiftLeft_eq,
    UInt64.toNat_ofNat', Nat.add_mod, hhigh, Nat.mod_eq_of_lt result.toNat_lt,
    Nat.mod_eq_of_lt hfits, Nat.add_comm]

/-- The loop from the middle of a number on: what is left of it stands above the
bits read so far. -/
theorem readVarintLoop_eq (fuel : Nat) (bs : Bytes) {result : UInt64} {shift n : Nat}
    (hshift : shift + 7 * (fuel + 1) = 70) (hresult : result.toNat < 2 ^ shift) :
    readVarintLoop bs result shift n =
      (Protobuf.readGroups (fuel + 1) bs).map fun (v, size) =>
        (UInt64.ofNat (result.toNat + v * 2 ^ shift), n + size) := by
  induction fuel generalizing bs result shift n with
  | zero =>
      cases bs with
      | nil => rfl
      | cons b bs =>
          have hdigit : (b.toUInt64 &&& 0x7F).toNat = b.toNat % 128 := by
            rw [low7_toNat, UInt8.toNat_toUInt64]
          simp only [readVarintLoop, Protobuf.readGroups, continuation_bit]
          by_cases hlast : b.toNat < 128
          · rw [if_pos hlast, if_pos hlast, or_shift_ofNat (by omega) hresult, hdigit,
              Nat.mod_eq_of_lt hlast]
            rfl
          · rw [if_neg hlast, if_neg hlast, if_pos (by omega)]
            rfl
  | succ fuel ih =>
      cases bs with
      | nil => rfl
      | cons b bs =>
          have hdigit : (b.toUInt64 &&& 0x7F).toNat = b.toNat % 128 := by
            rw [low7_toNat, UInt8.toNat_toUInt64]
          have hpow : 2 ^ (shift + 7) = 2 ^ shift * 128 := Nat.pow_add 2 shift 7
          simp only [readVarintLoop, Protobuf.readGroups, continuation_bit]
          by_cases hlast : b.toNat < 128
          · rw [if_pos hlast, if_pos hlast, or_shift_ofNat (by omega) hresult, hdigit,
              Nat.mod_eq_of_lt hlast]
            rfl
          · -- the next group still fits, so nothing has fallen off the top
            have hroom : 2 ^ (shift + 7) ≤ 2 ^ 63 := Nat.pow_le_pow_right (by decide) (by omega)
            have hle : b.toNat % 128 * 2 ^ shift ≤ 127 * 2 ^ shift :=
              Nat.mul_le_mul_right _ (by omega)
            have hnext := @or_shift_toNat result (b.toUInt64 &&& 0x7F) shift (by omega) hresult
              (by rw [hdigit]; omega)
            rw [hdigit] at hnext
            rw [if_neg hlast, if_neg hlast, if_neg (by omega),
              ih bs (by omega) (by rw [hnext]; omega), hnext]
            cases Protobuf.readGroups (fuel + 1) bs with
            | none => rfl
            | some r =>
                have hvalue : result.toNat + b.toNat % 128 * 2 ^ shift + r.1 * 2 ^ (shift + 7) =
                    result.toNat + (b.toNat - 128 + 128 * r.1) * 2 ^ shift := by
                  have hb : b.toNat % 128 = b.toNat - 128 := by
                    have hlt := b.toNat_lt
                    omega
                  rw [hpow, hb]
                  ring
                have hsize : n + 1 + r.2 = n + (r.2 + 1) := by omega
                simp only [Option.map_some, hvalue, hsize]

/-- `read_varint` reads a varint of at most ten bytes. -/
theorem readVarint_eq (buf : Bytes) (offset : Nat) :
    readVarint buf offset = Protobuf.readVarint (buf.drop offset) := by
  rw [readVarint, readVarintLoop_eq 9 _ rfl (by decide), Protobuf.readVarint]
  simp

/-- The varint codec round-trips at any offset and before any bytes. -/
theorem readVarint_write (v : UInt64) (before after : Bytes) :
    readVarint (before ++ (writeVarint v ++ after)) before.length =
      some (v, (writeVarint v).length) := by
  rw [readVarint_eq, List.drop_left, writeVarint_eq, Protobuf.readVarint_varint]

/-! ## Messages -/

open Protobuf (Field Value)

/-- What a field means for the message read so far. -/
def FrameProto.set (frame : FrameProto) (f : Field) : FrameProto :=
  match f.value with
  | .len data => if f.number = 1 then { frame with payload := data } else frame
  | .varint v => if f.number = 2 then { frame with binary := v != 0 } else frame
  | _ => frame

/-- The two halves of a tag, as the code takes them. -/
theorem tag_split (tag : UInt64) :
    (tag &&& 0x07).toNat = tag.toNat % 8 ∧
      (tag >>> 3).toNat % 2 ^ 32 = tag.toNat / 8 % 2 ^ 32 := by
  constructor
  · rw [UInt64.toNat_and]
    exact Nat.and_two_pow_sub_one_eq_mod _ 3
  · rw [UInt64.toNat_shiftRight]
    exact congrArg (· % 2 ^ 32) (Nat.shiftRight_eq_div_pow _ 3)

/-- What a decoder finds at a field, wherever it stands: the tag takes `n` bytes and the
value `m`, and the positions after them are no more than the size of the buffer. -/
structure FieldAt (bits : Nat) (buf : Bytes) (i : Nat) (f : Field) (tag : UInt64) (n m : Nat) :
    Prop where
  read : Protobuf.readVarint (buf.drop i) = some (tag, n)
  wire : (tag &&& 0x07).toNat = tag.toNat % 8
  number : (tag >>> 3).toNat % 2 ^ 32 = f.number
  value : Protobuf.readValue (tag.toNat % 8) (buf.drop (i + n)) = some (f.value, m)
  inside : i + n + m ≤ buf.length
  start : usize bits (i + n) = i + n
  stop : usize bits (i + n + m) = i + (n + m)

theorem readField_at {bits : Nat} {buf : Bytes} {i : Nat} {f : Field} {size : Nat}
    (h : Protobuf.readField (buf.drop i) = some (f, size)) (hi : i ≤ buf.length)
    (hwidth : buf.length < 2 ^ bits) : ∃ tag n m, FieldAt bits buf i f tag n m ∧ size = n + m := by
  obtain ⟨tag, n, m, hread, hnumber, hvalue, rfl⟩ := Protobuf.readField_cases h
  obtain ⟨hwire, hfield⟩ := tag_split tag
  have hn := (Protobuf.readVarint_size hread).2.1
  have hm := Protobuf.readValue_size hvalue
  have hbounded := f.bounded
  have hmod : f.number % 2 ^ 32 = f.number := Nat.mod_eq_of_lt (by omega)
  rw [hnumber, hmod] at hfield
  rw [List.drop_drop] at hvalue
  rw [List.length_drop] at hn
  rw [List.length_drop, List.length_drop] at hm
  refine ⟨tag, n, m, ⟨hread, hwire, hfield, hvalue, by omega, usize_of_lt (by omega), ?_⟩, rfl⟩
  rw [usize_of_lt (by omega), Nat.add_assoc]

section Fields

variable {bits : Nat} {proto : Bytes}

/-- `skip_field` moves past a value. -/
theorem skipField_value {i wireType : Nat} {value : Value} {size : Nat}
    (h : Protobuf.readValue wireType (proto.drop i) = some (value, size))
    (hi : i ≤ proto.length) (hwidth : proto.length < 2 ^ bits) :
    skipField bits proto i wireType = some (i + size) := by
  have hlen : (proto.drop i).length = proto.length - i := List.length_drop
  have hsize := Protobuf.readValue_size h
  have hend : usize bits (i + size) = i + size := usize_of_lt (by omega)
  obtain ⟨rfl, v, -, hread⟩ | ⟨rfl, -, rfl, -⟩ | ⟨rfl, length, n, hread, -, rfl, -⟩ |
    ⟨rfl, -, rfl, -⟩ := Protobuf.readValue_cases h
  · simp only [skipField, readVarint_eq, hread, hend]
  · simp only [skipField, hend]
    rw [if_neg (by omega)]
  · have hstart : usize bits (i + n) = i + n := usize_of_lt (by omega)
    have hlength : usize bits length.toNat = length.toNat := usize_of_lt (by omega)
    rw [← Nat.add_assoc] at hend
    simp only [skipField, readVarint_eq, hread, hstart, hlength, hend]
    rw [if_neg (by omega), Nat.add_assoc]
  · simp only [skipField, hend]
    rw [if_neg (by omega)]

/-- One iteration on a field, wherever it stands. -/
theorem decodeFrameField_read {i : Nat} {f : Field} {size : Nat} (frame : FrameProto)
    (h : Protobuf.readField (proto.drop i) = some (f, size)) (hi : i ≤ proto.length)
    (hwidth : proto.length < 2 ^ bits) :
    decodeFrameField bits proto i frame = .ok (some (i + size, frame.set f)) := by
  obtain ⟨tag, n, m, ⟨hread, hwire, hfield, hvalue, hinside, hstart, hstop⟩, rfl⟩ :=
    readField_at h hi hwidth
  have hskip := skipField_value hvalue (by omega) hwidth
  simp only [decodeFrameField, readVarint_eq, hread, hstart, hwire, hfield]
  obtain ⟨hzero, v, hval, hv⟩ | ⟨hone, ⟨v, hval⟩, -⟩ | ⟨htwo, length, k, hv, hval, rfl, -⟩ |
    ⟨hfive, ⟨v, hval⟩, -⟩ := Protobuf.readValue_cases hvalue
  · rw [hzero] at hskip ⊢
    rw [if_neg (by omega)]
    by_cases hflag : f.number = 2
    · rw [if_pos ⟨hflag, rfl⟩]
      simp only [hv, hstop, FrameProto.set, hval, if_pos hflag]
    · rw [if_neg (fun hand => hflag hand.1), hskip, Nat.add_assoc]
      simp only [FrameProto.set, hval, if_neg hflag]
  · rw [hone] at hskip ⊢
    rw [if_neg (by omega), if_neg (by omega), hskip, Nat.add_assoc]
    simp only [FrameProto.set, hval]
  · rw [htwo] at hskip ⊢
    by_cases hpayload : f.number = 1
    · have hdata : usize bits (i + n + k) = i + n + k := usize_of_lt (by omega)
      have hlength : usize bits length.toNat = length.toNat := usize_of_lt (by omega)
      have hend : usize bits (i + n + k + length.toNat) = i + n + k + length.toNat :=
        usize_of_lt (by omega)
      have hslice : slice proto (i + n + k) (i + n + k + length.toNat) =
          .ok (((proto.drop (i + n)).drop k).take length.toNat) := by
        rw [slice, if_neg (by omega), if_neg (by omega), List.drop_drop, Nat.add_sub_cancel_left]
      have hsum : i + n + k + length.toNat = i + (n + (k + length.toNat)) := by omega
      rw [if_pos ⟨hpayload, rfl⟩]
      simp only [hv, hdata, hlength, hend, hslice]
      rw [if_neg (by omega), hsum]
      simp only [FrameProto.set, hval, if_pos hpayload]
      rfl
    · rw [if_neg (fun hand => hpayload hand.1), if_neg (by omega), hskip, Nat.add_assoc]
      simp only [FrameProto.set, hval, if_neg hpayload]
  · rw [hfive] at hskip ⊢
    rw [if_neg (by omega), if_neg (by omega), hskip, Nat.add_assoc]
    simp only [FrameProto.set, hval]

end Fields

/-- The decoder goes through a message field by field. -/
theorem decodeFrameProto_parse {bits : Nat} {proto : Bytes} {fields : List Field}
    (h : Protobuf.parse proto = some fields) (hwidth : proto.length < 2 ^ bits) :
    decodeFrameProto bits proto = .ok (some (fields.foldl FrameProto.set {})) := by
  have hloop : ∀ fuel frame, proto.length - 0 < fuel →
      decodeFrameLoop bits proto fuel 0 frame =
        .ok (some (fields.foldl FrameProto.set frame)) := by
    apply Protobuf.parse_induct h
      (motive := fun i fields => ∀ fuel frame, proto.length - i < fuel →
        decodeFrameLoop bits proto fuel i frame = .ok (some (fields.foldl FrameProto.set frame)))
    · intro i hend fuel frame hfuel
      obtain ⟨fuel, rfl⟩ : ∃ k, fuel = k + 1 := ⟨fuel - 1, by omega⟩
      rw [decodeFrameLoop, if_neg (Nat.not_lt_of_le hend)]
      rfl
    · intro i f size rest hlt hread hmore hsize ih fuel frame hfuel
      obtain ⟨fuel, rfl⟩ : ∃ k, fuel = k + 1 := ⟨fuel - 1, by omega⟩
      have hstep := decodeFrameField_read frame hread (Nat.le_of_lt hlt) hwidth
      rw [decodeFrameLoop, if_pos hlt, hstep]
      exact ih fuel (frame.set f) (by omega)
  exact hloop (proto.length + 1) {} (by omega)

/-- The fields of the message that `encode_frame_proto` writes. -/
def frameFields (payload : Bytes) (binary : Bool) : List Field :=
  (if payload.isEmpty then [] else [⟨1, .len payload, Protobuf.isNumber_one⟩]) ++
    if binary then [⟨2, .varint 1, Protobuf.isNumber_two⟩] else []

theorem encodeFrameProto_eq (payload : Bytes) (binary : Bool) :
    encodeFrameProto payload binary = Protobuf.encode (frameFields payload binary) := by
  have hflag : (if binary then [0x10, 0x01] else [] : Bytes) = Protobuf.encode
      (if binary then [⟨2, .varint 1, Protobuf.isNumber_two⟩] else []) := by
    cases binary <;> rfl
  rw [encodeFrameProto, frameFields, Protobuf.encode_append, ← hflag]
  congr 1
  cases payload.isEmpty
  · simp only [Bool.false_eq_true, if_false, Protobuf.encode_cons, Protobuf.encode_nil,
      List.append_nil, writeVarint_eq]
    rfl
  · rfl

/-- `decode_frame_proto` undoes `encode_frame_proto`. -/
theorem decodeFrameProto_encode {bits : Nat} (payload : Bytes) (binary : Bool)
    (hwidth : (encodeFrameProto payload binary).length < 2 ^ bits)
    (hpayload : payload.length < 2 ^ 64) :
    decodeFrameProto bits (encodeFrameProto payload binary) = .ok (some { payload, binary }) := by
  have hfits : ∀ f ∈ frameFields payload binary, f.value.Fits := by
    intro f hf
    obtain hf | hf := List.mem_append.mp hf
    · split at hf
      · cases hf
      · cases List.mem_singleton.mp hf
        exact hpayload
    · split at hf
      · cases List.mem_singleton.mp hf
        exact trivial
      · cases hf
  rw [encodeFrameProto_eq] at hwidth ⊢
  rw [decodeFrameProto_parse (Protobuf.parse_encode hfits) hwidth, frameFields]
  cases payload <;> cases binary <;> rfl

/-! ## proto3 semantics -/

/-- The last value of each field wins. -/
theorem foldl_set (fields : List Field) (payload : Bytes) (v : UInt64) :
    fields.foldl FrameProto.set { payload, binary := v != 0 } =
      { payload := (Protobuf.lens 1 fields).getLastD payload
        binary := (Protobuf.varints 2 fields).getLastD v != 0 } := by
  induction fields generalizing payload v with
  | nil => rfl
  | cons f fields ih =>
      rw [List.foldl_cons]
      cases hvalue : f.value with
      | varint w =>
          by_cases hflag : f.number = 2
          · simp only [FrameProto.set, Protobuf.lens, Protobuf.varints, List.filterMap_cons,
              hvalue, if_pos hflag, List.getLastD_cons]
            exact ih payload w
          · simp only [FrameProto.set, Protobuf.lens, Protobuf.varints, List.filterMap_cons,
              hvalue, if_neg hflag]
            exact ih payload v
      | len data =>
          by_cases hpayload : f.number = 1
          · simp only [FrameProto.set, Protobuf.lens, Protobuf.varints, List.filterMap_cons,
              hvalue, if_pos hpayload, List.getLastD_cons]
            exact ih data v
          · simp only [FrameProto.set, Protobuf.lens, Protobuf.varints, List.filterMap_cons,
              hvalue, if_neg hpayload]
            exact ih payload v
      | i64 w =>
          simp only [FrameProto.set, Protobuf.lens, Protobuf.varints, List.filterMap_cons, hvalue]
          exact ih payload v
      | i32 w =>
          simp only [FrameProto.set, Protobuf.lens, Protobuf.varints, List.filterMap_cons, hvalue]
          exact ih payload v

/-- What a list of fields means as a `Frame`. -/
def frameMeaning (fields : List Field) : FrameProto where
  payload := Protobuf.bytesField 1 fields
  binary := Protobuf.numberField 2 fields != 0

theorem decodeFrameProto_meaning {bits : Nat} {proto : Bytes} {fields : List Field}
    (h : Protobuf.parse proto = some fields) (hwidth : proto.length < 2 ^ bits) :
    decodeFrameProto bits proto = .ok (some (frameMeaning fields)) :=
  (decodeFrameProto_parse h hwidth).trans
    (congrArg (fun frame => Except.ok (some frame)) (foldl_set fields [] 0))

/-- `decode_frame_proto` reads a `Frame` as proto3 defines it: on every message that
the wire format allows, so on every list of fields as they are written, and on what
`encode_frame_proto` writes. -/
theorem decodeFrameProto_proto3 {bits : Nat} (hbits : 32 ≤ bits) (hbits' : bits ≤ 64) :
    (∀ proto fields, Protobuf.parse proto = some fields → proto.length < 2 ^ 31 →
      decodeFrameProto bits proto = .ok (some (frameMeaning fields))) ∧
    (∀ fields, (Protobuf.encode fields).length < 2 ^ 31 →
      decodeFrameProto bits (Protobuf.encode fields) = .ok (some (frameMeaning fields))) ∧
    ∀ payload binary, (encodeFrameProto payload binary).length < 2 ^ bits →
      decodeFrameProto bits (encodeFrameProto payload binary) = .ok (some { payload, binary }) := by
  have hpow : 2 ^ 31 ≤ 2 ^ bits := Nat.pow_le_pow_right (by decide) (by omega)
  have hpow' : 2 ^ bits ≤ 2 ^ 64 := Nat.pow_le_pow_right (by decide) hbits'
  refine ⟨?_, ?_, ?_⟩
  · intro proto fields h hsize
    exact decodeFrameProto_meaning h (by omega)
  · intro fields hsize
    exact decodeFrameProto_meaning (Protobuf.parse_encode (Protobuf.fits_of_length (by omega)))
      (by omega)
  · intro payload binary hwidth
    apply decodeFrameProto_encode payload binary hwidth
    cases payload with
    | nil => decide
    | cons b bs =>
        have hle : (b :: bs).length ≤ (encodeFrameProto (b :: bs) binary).length := by
          simp only [encodeFrameProto, List.isEmpty_cons, Bool.false_eq_true, if_false,
            List.length_append, List.length_cons]
          omega
        omega

/-- A known number with another wire type, an unknown field and two payloads. -/
theorem decodeFrameProto_proto3_shadowed :
    decodeFrameProto 32 (Protobuf.encode [⟨1, .len [0x61], Protobuf.isNumber_one⟩,
        ⟨1, .varint 5, Protobuf.isNumber_one⟩, ⟨16, .i32 7, Protobuf.isNumber_sixteen⟩,
        ⟨1, .len [0x62], Protobuf.isNumber_one⟩, ⟨2, .varint 300, Protobuf.isNumber_two⟩]) =
      .ok (some ⟨[0x62], true⟩) :=
  (decodeFrameProto_proto3 (Nat.le_refl 32) (by decide)).2.1 _ (by decide)

end Grpcgi.Wasm
