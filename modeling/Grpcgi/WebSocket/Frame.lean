import Grpcgi.Data.Bytes

/-!
# RFC 6455 frames

`Frame` is a frame as the protocol defines it and `Frame.encode` its wire form.
Nothing here is translated from a filter: the two codecs are each related to
this wire form. A frame may carry any of the three length fields that can hold
its length, so that the shortest form the RFC asks for and the longer ones that
parsers meet in practice are both covered.
-/

namespace Grpcgi.WebSocket

/-- The three payload-length encodings of RFC 6455 section 5.2. -/
inductive LengthForm where
  | short
  | medium
  | long
  deriving DecidableEq, Repr

namespace LengthForm

/-- Lengths below this bound can be written in the form. The most significant
bit of the 64-bit form must be zero. -/
def bound : LengthForm → Nat
  | short => 126
  | medium => 2 ^ 16
  | long => 2 ^ 63

/-- Bytes after the second one that hold the length. -/
def width : LengthForm → Nat
  | short => 0
  | medium => 2
  | long => 8

/-- The seven-bit field of the second byte. -/
def indicator (form : LengthForm) (length : Nat) : Nat :=
  match form with
  | short => length
  | medium => 126
  | long => 127

end LengthForm

/-- One frame, with its application data unmasked. -/
structure Frame where
  fin : Bool
  rsv : Fin 8
  opcode : Fin 16
  mask : Option (Fin 4 → UInt8)
  form : LengthForm
  payload : Bytes
  fits : payload.length < form.bound

namespace Frame

variable (f : Frame)

def IsText : Prop := f.opcode = 1
def IsBinary : Prop := f.opcode = 2
def IsClose : Prop := f.opcode = 8
def IsPing : Prop := f.opcode = 9
def IsPong : Prop := f.opcode = 10
def IsContinuation : Prop := f.opcode = 0
def IsData : Prop := f.IsText ∨ f.IsBinary

instance : Decidable f.IsText := inferInstanceAs (Decidable (_ = _))
instance : Decidable f.IsBinary := inferInstanceAs (Decidable (_ = _))
instance : Decidable f.IsClose := inferInstanceAs (Decidable (_ = _))
instance : Decidable f.IsPing := inferInstanceAs (Decidable (_ = _))
instance : Decidable f.IsPong := inferInstanceAs (Decidable (_ = _))
instance : Decidable f.IsContinuation := inferInstanceAs (Decidable (_ = _))
instance : Decidable f.IsData := inferInstanceAs (Decidable (_ ∨ _))

def byte0 : UInt8 := UInt8.ofNat ((if f.fin then 128 else 0) + 16 * f.rsv.val + f.opcode.val)

def byte1 : UInt8 :=
  UInt8.ofNat ((if f.mask.isSome then 128 else 0) + f.form.indicator f.payload.length)

def lengthBytes : Bytes := beBytes f.form.width f.payload.length

/-- The masking key on the wire: absent, or four bytes. -/
def keyBytes : Bytes :=
  match f.mask with
  | none => []
  | some key => List.ofFn key

/-- The application data as sent. -/
def wirePayload : Bytes :=
  match f.mask with
  | none => f.payload
  | some key => maskWith (List.ofFn key) f.payload

def encode : Bytes :=
  f.byte0 :: f.byte1 :: (f.lengthBytes ++ (f.keyBytes ++ f.wirePayload))

@[simp] theorem length_lengthBytes : f.lengthBytes.length = f.form.width :=
  length_beBytes _ _

@[simp] theorem length_wirePayload : f.wirePayload.length = f.payload.length := by
  simp only [wirePayload]
  split <;> simp

/-- Opcodes can be told apart on the wire. -/
theorem opcode_byte (n : Fin 16) :
    UInt8.ofNat f.opcode.val = UInt8.ofNat n.val ↔ f.opcode = n := by
  generalize f.opcode = m
  revert m n
  decide

theorem byte_text : UInt8.ofNat f.opcode.val = 0x1 ↔ f.IsText := f.opcode_byte 1
theorem byte_binary : UInt8.ofNat f.opcode.val = 0x2 ↔ f.IsBinary := f.opcode_byte 2
theorem byte_close : UInt8.ofNat f.opcode.val = 0x8 ↔ f.IsClose := f.opcode_byte 8
theorem byte_ping : UInt8.ofNat f.opcode.val = 0x9 ↔ f.IsPing := f.opcode_byte 9

/-- The kinds of frames that the filters treat differently exclude one another. -/
theorem not_data_of_close {f : Frame} (h : f.IsClose) : ¬ f.IsData := by
  rintro (ht | hb)
  · exact absurd (h.symm.trans ht) (by decide)
  · exact absurd (h.symm.trans hb) (by decide)

theorem not_ping_of_close {f : Frame} (h : f.IsClose) : ¬ f.IsPing := fun hp =>
  absurd (h.symm.trans hp) (by decide)

theorem not_ping_of_data {f : Frame} (h : f.IsData) : ¬ f.IsPing := by
  intro hp
  obtain ht | hb := h
  · exact absurd (hp.symm.trans ht) (by decide)
  · exact absurd (hp.symm.trans hb) (by decide)

theorem length_keyBytes : f.keyBytes.length = if f.mask.isSome then 4 else 0 := by
  simp only [keyBytes]
  cases f.mask <;> simp

theorem length_encode :
    f.encode.length = 2 + f.form.width + f.keyBytes.length + f.payload.length := by
  simp only [encode, List.length_cons, List.length_append, length_lengthBytes,
    length_wirePayload]
  omega

/-- A header has at most fourteen bytes. -/
theorem length_encode_le : f.encode.length ≤ f.payload.length + 14 := by
  have hwidth : f.form.width ≤ 8 := by cases f.form <;> decide
  have hkey : f.keyBytes.length ≤ 4 := by
    rw [length_keyBytes]
    split <;> omega
  rw [length_encode]
  omega

theorem encode_append (cs : Bytes) :
    f.encode ++ cs =
      f.byte0 :: f.byte1 :: (f.lengthBytes ++ (f.keyBytes ++ (f.wirePayload ++ cs))) := by
  simp only [encode, List.cons_append, List.append_assoc]

/-- The length field starts after the first two bytes. -/
theorem take_lengthBytes (cs : Bytes) :
    ((f.encode ++ cs).drop 2).take f.form.width = f.lengthBytes := by
  rw [encode_append, List.drop_succ_cons, List.drop_succ_cons, List.drop_zero,
    ← f.length_lengthBytes, List.take_left]

/-- The key and the payload start after the length field. -/
theorem drop_length (cs : Bytes) :
    (f.encode ++ cs).drop (2 + f.form.width) = f.keyBytes ++ (f.wirePayload ++ cs) := by
  rw [encode_append, Nat.add_comm, List.drop_succ_cons, List.drop_succ_cons,
    ← f.length_lengthBytes, List.drop_left]

theorem indicator_lt : f.form.indicator f.payload.length < 128 := by
  have hfits := f.fits
  cases hform : f.form <;> simp only [hform, LengthForm.bound] at hfits <;>
    simp only [LengthForm.indicator] <;> omega

theorem payload_lt : f.payload.length < 2 ^ 63 := by
  have hfits := f.fits
  cases hform : f.form <;> simp only [hform, LengthForm.bound] at hfits <;> omega

theorem toNat_byte0 :
    f.byte0.toNat = (if f.fin then 128 else 0) + 16 * f.rsv.val + f.opcode.val := by
  have hr := f.rsv.isLt
  have ho := f.opcode.isLt
  rw [byte0, UInt8.toNat_ofNat']
  apply Nat.mod_eq_of_lt
  split <;> omega

theorem toNat_byte1 :
    f.byte1.toNat = (if f.mask.isSome then 128 else 0) + f.form.indicator f.payload.length := by
  have hi := f.indicator_lt
  rw [byte1, UInt8.toNat_ofNat']
  apply Nat.mod_eq_of_lt
  split <;> omega

/-- The low half of the first byte is the opcode. -/
theorem byte0_opcode : f.byte0 &&& 0x0F = UInt8.ofNat f.opcode.val := by
  have ho := f.opcode.isLt
  apply UInt8.toNat_inj.mp
  rw [and_15, toNat_byte0, UInt8.toNat_ofNat']
  split <;> omega

theorem byte1_indicator : (f.byte1 &&& 0x7F).toNat = f.form.indicator f.payload.length := by
  have hi := f.indicator_lt
  rw [and_127, toNat_byte1]
  split <;> omega

/-- The high bit of the second byte says whether a key follows. -/
theorem byte1_masked : (f.byte1 &&& 0x80 != 0) = f.mask.isSome := by
  have hi := f.indicator_lt
  have hbit := and_128_ne_zero f.byte1
  rw [toNat_byte1] at hbit
  cases hm : f.mask.isSome
  · have hzero : f.byte1 &&& 0x80 = 0 := by
      by_contra hne
      have := hbit.mp hne
      simp only [hm, Bool.false_eq_true, if_false] at this
      omega
    simp [hzero]
  · have hne : f.byte1 &&& 0x80 ≠ 0 := hbit.mpr (by simp [hm])
    simpa using hne

theorem byte0_fin : (f.byte0 &&& 0x80 != 0) = f.fin := by
  have hr := f.rsv.isLt
  have ho := f.opcode.isLt
  have hbit := and_128_ne_zero f.byte0
  rw [toNat_byte0] at hbit
  cases hf : f.fin
  · have hzero : f.byte0 &&& 0x80 = 0 := by
      by_contra hne
      have := hbit.mp hne
      simp only [hf, Bool.false_eq_true, if_false] at this
      omega
    simp [hzero]
  · have hne : f.byte0 &&& 0x80 ≠ 0 := hbit.mpr (by simp [hf]; omega)
    simpa using hne

/-- The length field after the second byte holds the payload length. -/
theorem beNat_lengthBytes (hlong : f.form ≠ .short) :
    beNat f.lengthBytes = f.payload.length := by
  have hfits := f.fits
  rw [lengthBytes, beNat_beBytes]
  apply Nat.mod_eq_of_lt
  cases hform : f.form <;> simp only [hform, LengthForm.bound] at hfits <;>
    simp only [LengthForm.width]
  · exact absurd hform hlong
  · omega
  · omega

end Frame

/-! ## The shortest length field -/

/-- The form that RFC 6455 asks a sender to use. -/
def LengthForm.shortest (length : Nat) : LengthForm :=
  if length < 126 then .short else if length < 2 ^ 16 then .medium else .long

theorem LengthForm.lt_bound_shortest {length : Nat} (h : length < 2 ^ 63) :
    length < (shortest length).bound := by
  simp only [shortest]
  by_cases h7 : length < 126
  · rwa [if_pos h7]
  · by_cases h16 : length < 2 ^ 16
    · rwa [if_neg h7, if_pos h16]
    · rwa [if_neg h7, if_neg h16]

/-- A frame on its own, with the shortest length field. -/
def Frame.shortest (opcode : Fin 16) (mask : Option (Fin 4 → UInt8)) (payload : Bytes)
    (h : payload.length < 2 ^ 63) : Frame where
  fin := true
  rsv := 0
  opcode
  mask
  form := .shortest payload.length
  payload
  fits := LengthForm.lt_bound_shortest h

/-- A stream of whole frames. -/
def encodeAll (frames : List Frame) : Bytes := frames.flatMap Frame.encode

/-- Bytes that end inside a frame: a proper beginning of one, possibly empty. -/
def Partial (bs : Bytes) : Prop := ∃ f : Frame, bs <+: f.encode ∧ bs.length < f.encode.length

theorem partial_nil : Partial [] :=
  ⟨⟨true, 0, 1, none, .short, [], by decide⟩, List.nil_prefix, by decide⟩

@[simp] theorem encodeAll_nil : encodeAll [] = [] := rfl

@[simp] theorem encodeAll_cons (f : Frame) (fs : List Frame) :
    encodeAll (f :: fs) = f.encode ++ encodeAll fs := rfl

theorem encodeAll_append (fs gs : List Frame) :
    encodeAll (fs ++ gs) = encodeAll fs ++ encodeAll gs := List.flatMap_append

end Grpcgi.WebSocket
