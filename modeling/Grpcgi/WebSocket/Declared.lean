import Grpcgi.WebSocket.Frame

/-!
# Frames at the front of a buffer

`declared` reads the header of an RFC 6455 frame off any buffer, in exact
numbers: nothing is cast or added in a machine type. A buffer that holds all the
bytes its header declares starts with a frame, and every frame declares itself.
-/

namespace Grpcgi.WebSocket

/-- The form that a seven-bit field announces. -/
def LengthForm.ofIndicator (indicator : Nat) : LengthForm :=
  if indicator < 126 then .short else if indicator = 126 then .medium else .long

/-- What the header of a frame says up to its length field. -/
structure Declared where
  fin : Bool
  opcode : UInt8
  masked : Bool
  form : LengthForm
  /-- the length of the payload, all 64 bits of it -/
  length : Nat
  deriving DecidableEq, Repr

namespace Declared

variable (d : Declared)

/-- Bytes before the masking key. -/
def keyOffset : Nat := 2 + d.form.width

/-- Bytes before the payload. -/
def offset : Nat := d.keyOffset + if d.masked then 4 else 0

/-- The declared bytes, unmasked. -/
def payload (buf : Bytes) : Bytes :=
  let raw := (buf.drop d.offset).take d.length
  if d.masked then maskWith ((buf.drop d.keyOffset).take 4) raw else raw

/-- All declared bytes have arrived. -/
def Complete (buf : Bytes) : Prop := d.offset + d.length ≤ buf.length

instance (buf : Bytes) : Decidable (d.Complete buf) := inferInstanceAs (Decidable (_ ≤ _))

theorem offset_bounds : 2 ≤ d.offset ∧ d.offset ≤ 14 := by
  have hwidth : d.form.width ≤ 8 := by cases d.form <;> decide
  simp only [offset, keyOffset]
  split <;> omega

end Declared

/-- The header at the front of a buffer, or `none` when the length field has not
arrived. -/
def declared (buf : Bytes) : Option Declared :=
  let indicator := (buf.getD 1 0 &&& 0x7F).toNat
  let form := LengthForm.ofIndicator indicator
  if buf.length < 2 + form.width then none
  else some {
    fin := buf.getD 0 0 &&& 0x80 != 0
    opcode := buf.getD 0 0 &&& 0x0F
    masked := buf.getD 1 0 &&& 0x80 != 0
    form
    length := if form = .short then indicator else beNat ((buf.drop 2).take form.width) }

/-! ## Complete frames -/

section Complete

variable {buf : Bytes} {d : Declared}

theorem declared_fields (h : declared buf = some d) :
    d.keyOffset ≤ buf.length ∧ d.fin = (buf.getD 0 0 &&& 0x80 != 0) ∧
      d.opcode = buf.getD 0 0 &&& 0x0F ∧ d.masked = (buf.getD 1 0 &&& 0x80 != 0) ∧
      d.form = .ofIndicator (buf.getD 1 0 &&& 0x7F).toNat ∧
      d.length = if d.form = .short then (buf.getD 1 0 &&& 0x7F).toNat
        else beNat ((buf.drop 2).take d.form.width) := by
  simp only [declared] at h
  split at h
  · cases h
  · rename_i hlen
    cases h
    exact ⟨Nat.le_of_not_lt hlen, rfl, rfl, rfl, rfl, rfl⟩

/-- The seven-bit field is what the form and the length make of it. -/
theorem declared_indicator (h : declared buf = some d) :
    d.form.indicator d.length = (buf.getD 1 0 &&& 0x7F).toNat := by
  obtain ⟨-, -, -, -, hform, hlength⟩ := declared_fields h
  have hlt := and_127_lt (buf.getD 1 0)
  generalize (buf.getD 1 0 &&& 0x7F).toNat = k at hform hlength hlt
  simp only [LengthForm.ofIndicator] at hform
  split_ifs at hform with hshort hmedium
  · rw [hlength, hform, if_pos rfl]
    rfl
  · rw [hform, hmedium]
    rfl
  · rw [hform, LengthForm.indicator]
    omega

/-- Only the 64-bit form can declare more than a frame may have. -/
theorem declared_bound (h : declared buf = some d) :
    d.length < 2 ^ 64 ∧ (d.form ≠ .long → d.length < d.form.bound) := by
  obtain ⟨hlen, -, -, -, hform, hlength⟩ := declared_fields h
  have hvalue := beNat_lt ((buf.drop 2).take d.form.width)
  have htake : ((buf.drop 2).take d.form.width).length = d.form.width := by
    rw [List.length_take, List.length_drop]
    simp only [Declared.keyOffset] at hlen
    omega
  rw [htake] at hvalue
  generalize (buf.getD 1 0 &&& 0x7F).toNat = k at hform hlength
  simp only [LengthForm.ofIndicator] at hform
  split_ifs at hform with hshort hmedium <;> simp only [hform] at hlength hvalue ⊢
  · rw [hlength, if_pos trivial]
    exact ⟨by omega, fun _ => hshort⟩
  · rw [hlength]
    simp only [LengthForm.width] at hvalue
    exact ⟨Nat.lt_trans hvalue (by decide), fun _ => hvalue⟩
  · rw [hlength]
    exact ⟨hvalue, fun hlong => absurd rfl hlong⟩

theorem Declared.length_payload (hcomplete : d.Complete buf) :
    (d.payload buf).length = d.length := by
  simp only [Declared.Complete] at hcomplete
  have hraw : ((buf.drop d.offset).take d.length).length = d.length := by
    rw [List.length_take, List.length_drop]
    omega
  simp only [Declared.payload]
  split
  · rw [length_maskWith, hraw]
  · exact hraw

/-- The frame at the front of a buffer that is long enough for it. -/
def Declared.frame (d : Declared) (buf : Bytes) (hcomplete : d.Complete buf)
    (hfits : d.length < d.form.bound) : Frame where
  fin := d.fin
  rsv := ⟨(buf.getD 0 0).toNat / 16 % 8, Nat.mod_lt _ (by decide)⟩
  opcode := ⟨(buf.getD 0 0).toNat % 16, Nat.mod_lt _ (by decide)⟩
  mask := if d.masked then some fun i => (buf.drop d.keyOffset).getD i 0 else none
  form := d.form
  payload := d.payload buf
  fits := by rwa [Declared.length_payload hcomplete]

theorem Declared.frame_byte0 (h : declared buf = some d) (hcomplete : d.Complete buf)
    (hfits : d.length < d.form.bound) :
    (d.frame buf hcomplete hfits).byte0 = buf.getD 0 0 ∧
      UInt8.ofNat (d.frame buf hcomplete hfits).opcode.val = d.opcode := by
  obtain ⟨-, hfin, hopcode, -⟩ := declared_fields h
  have hbit := and_128_ne_zero (buf.getD 0 0)
  constructor
  · apply UInt8.toNat_inj.mp
    have hlt := (buf.getD 0 0).toNat_lt
    rw [Frame.toNat_byte0]
    simp only [Declared.frame, hfin, bne_iff_ne, hbit]
    split <;> omega
  · apply UInt8.toNat_inj.mp
    rw [hopcode, and_15, UInt8.toNat_ofNat']
    change (buf.getD 0 0).toNat % 16 % 2 ^ 8 = _
    omega

theorem Declared.frame_byte1 (h : declared buf = some d) (hcomplete : d.Complete buf)
    (hfits : d.length < d.form.bound) :
    (d.frame buf hcomplete hfits).byte1 = buf.getD 1 0 := by
  obtain ⟨-, -, -, hmasked, -⟩ := declared_fields h
  have hbit := and_128_ne_zero (buf.getD 1 0)
  have hindicator := declared_indicator h
  rw [and_127] at hindicator
  have hmask : (d.frame buf hcomplete hfits).mask.isSome = d.masked := by
    simp only [Declared.frame]
    split <;> simp_all
  apply UInt8.toNat_inj.mp
  have hlt := (buf.getD 1 0).toNat_lt
  rw [Frame.toNat_byte1, hmask, hmasked]
  simp only [Declared.frame, Declared.length_payload hcomplete, hindicator, bne_iff_ne, hbit]
  split <;> omega

theorem Declared.frame_lengthBytes (h : declared buf = some d) (hcomplete : d.Complete buf)
    (hfits : d.length < d.form.bound) :
    (d.frame buf hcomplete hfits).lengthBytes = (buf.drop 2).take d.form.width := by
  obtain ⟨hlen, -, -, -, -, hlength⟩ := declared_fields h
  have htake : ((buf.drop 2).take d.form.width).length = d.form.width := by
    rw [List.length_take, List.length_drop]
    simp only [Declared.keyOffset] at hlen
    omega
  simp only [Frame.lengthBytes, Declared.frame, Declared.length_payload hcomplete]
  by_cases hshort : d.form = .short
  · rw [hshort]
    rfl
  · rw [if_neg hshort] at hlength
    have hdigits := beBytes_beNat ((buf.drop 2).take d.form.width) 0
    rwa [htake, Nat.zero_mul, Nat.zero_add, ← hlength] at hdigits

/-- Four bytes of a buffer as a key. -/
theorem ofFn_key {bs : Bytes} (h : 4 ≤ bs.length) :
    List.ofFn (fun i : Fin 4 => bs.getD i 0) = bs.take 4 := by
  apply List.ext_getElem
  · rw [List.length_ofFn, List.length_take]
    omega
  · intro i hi hi'
    rw [List.length_ofFn] at hi
    rw [List.getElem_ofFn, List.getElem_take, List.getD_eq_getElem _ _ (by omega)]

/-- The key and the payload of the frame are the bytes after its length field. -/
theorem Declared.frame_tail (hcomplete : d.Complete buf) (hfits : d.length < d.form.bound) :
    (d.frame buf hcomplete hfits).keyBytes ++ (d.frame buf hcomplete hfits).wirePayload =
      (buf.drop d.keyOffset).take (d.offset - d.keyOffset + d.length) := by
  simp only [Declared.Complete, Declared.offset] at hcomplete
  simp only [Frame.keyBytes, Frame.wirePayload, Declared.frame, Declared.payload, Declared.offset]
  cases hmasked : d.masked with
  | false =>
      simp only [Bool.false_eq_true, if_false, Nat.add_zero, Nat.sub_self, Nat.zero_add]
      rfl
  | true =>
      simp only [hmasked, if_true] at hcomplete
      have hkey := @ofFn_key (buf.drop d.keyOffset) (by rw [List.length_drop]; omega)
      simp only [if_true, hkey, maskWith_maskWith]
      rw [Nat.add_sub_cancel_left, List.take_add, List.drop_drop]

/-- A buffer with all the bytes its header declares starts with a frame. -/
theorem Declared.encode_frame (h : declared buf = some d) (hcomplete : d.Complete buf)
    (hfits : d.length < d.form.bound) :
    (d.frame buf hcomplete hfits).encode = buf.take (d.offset + d.length) := by
  obtain ⟨hlen, -⟩ := declared_fields h
  have hoffset : d.keyOffset ≤ d.offset := Nat.le_add_right _ _
  have htail := Declared.frame_tail hcomplete hfits
  obtain ⟨b0, b1, rest, rfl⟩ : ∃ b0 b1 rest, buf = b0 :: b1 :: rest := by
    match buf, hlen with
    | [], hlen => simp [Declared.keyOffset] at hlen
    | [_], hlen => simp only [Declared.keyOffset, List.length_singleton] at hlen; omega
    | b0 :: b1 :: rest, _ => exact ⟨b0, b1, rest, rfl⟩
  have hsize : d.offset + d.length =
      d.form.width + (d.offset - d.keyOffset + d.length) + 1 + 1 := by
    simp only [Declared.keyOffset] at hoffset ⊢
    omega
  rw [hsize, List.take_succ_cons, List.take_succ_cons, List.take_add, Frame.encode,
    (Declared.frame_byte0 h hcomplete hfits).1, Declared.frame_byte1 h hcomplete hfits,
    Declared.frame_lengthBytes h hcomplete hfits, htail, Declared.keyOffset, Nat.add_comm 2]
  rfl

end Complete

/-! ## Frames declare themselves -/

theorem LengthForm.ofIndicator_indicator (f : Frame) :
    LengthForm.ofIndicator (f.form.indicator f.payload.length) = f.form := by
  have hfits := f.fits
  cases hform : f.form <;> simp only [hform, LengthForm.bound] at hfits
  · exact if_pos hfits
  · rfl
  · rfl

/-- What a frame declares, whatever follows it. -/
theorem declared_encode (f : Frame) (cs : Bytes) :
    declared (f.encode ++ cs) = some {
      fin := f.fin
      opcode := UInt8.ofNat f.opcode.val
      masked := f.mask.isSome
      form := f.form
      length := f.payload.length } := by
  have hget0 : (f.encode ++ cs).getD 0 0 = f.byte0 := rfl
  have hget1 : (f.encode ++ cs).getD 1 0 = f.byte1 := rfl
  have hlen : ¬ (f.encode ++ cs).length < 2 + f.form.width := by
    rw [List.length_append, f.length_encode]
    omega
  have hlength : (if f.form = .short then f.form.indicator f.payload.length
      else beNat f.lengthBytes) = f.payload.length := by
    by_cases hshort : f.form = .short
    · rw [if_pos hshort, hshort]
      rfl
    · rw [if_neg hshort, f.beNat_lengthBytes hshort]
  simp only [declared, hget0, hget1, f.byte1_indicator, LengthForm.ofIndicator_indicator,
    if_neg hlen, f.byte0_fin, f.byte0_opcode, f.byte1_masked, f.take_lengthBytes, hlength]

/-- The view of a frame that a parser hands on: the buffer starts with a frame of
this opcode, payload and size. -/
def Starts (buf : Bytes) (opcode : UInt8) (payload : Bytes) (consumed : Nat) : Prop :=
  ∃ f : Frame, f.encode <+: buf ∧
    UInt8.ofNat f.opcode.val = opcode ∧ f.payload = payload ∧ f.encode.length = consumed

/-- A buffer starts with a frame exactly when it holds the bytes that its header
declares. -/
theorem starts_iff {buf : Bytes} (hsize : buf.length < 2 ^ 63) (opcode : UInt8) (payload : Bytes)
    (consumed : Nat) :
    Starts buf opcode payload consumed ↔
      ∃ d, declared buf = some d ∧ d.Complete buf ∧
        d.opcode = opcode ∧ d.payload buf = payload ∧ d.offset + d.length = consumed := by
  constructor
  · rintro ⟨f, ⟨cs, rfl⟩, hopcode, hpayload, hconsumed⟩
    have hkey := f.length_keyBytes
    have hsize := f.length_encode
    refine ⟨_, declared_encode f cs, ?_, hopcode, ?_, ?_⟩
    · simp only [Declared.Complete, Declared.offset, Declared.keyOffset, List.length_append]
      omega
    · have hraw : ((f.encode ++ cs).drop (2 + f.form.width + f.keyBytes.length)).take
          f.payload.length = f.wirePayload := by
        rw [← List.drop_drop, f.drop_length, List.drop_left, ← f.length_wirePayload,
          List.take_left]
      simp only [Declared.payload, Declared.offset, Declared.keyOffset, ← hkey, hraw,
        f.drop_length]
      rw [← hpayload, Frame.keyBytes, Frame.wirePayload]
      cases f.mask with
      | none => rfl
      | some key =>
          simp only [Option.isSome_some, if_true]
          rw [List.take_left' List.length_ofFn, maskWith_maskWith]
    · simp only [Declared.offset, Declared.keyOffset]
      omega
  · rintro ⟨d, hd, hcomplete, hopcode, hpayload, hconsumed⟩
    obtain ⟨-, hbound⟩ := declared_bound hd
    have hfits : d.length < d.form.bound := by
      by_cases hlong : d.form = .long
      · rw [hlong]
        simp only [Declared.Complete] at hcomplete
        exact Nat.lt_of_le_of_lt (Nat.le_trans (Nat.le_add_left _ _) hcomplete) hsize
      · exact hbound hlong
    have hencode := Declared.encode_frame hd hcomplete hfits
    refine ⟨d.frame buf hcomplete hfits, ?_, ?_, hpayload, ?_⟩
    · rw [hencode]
      exact List.take_prefix _ _
    · rw [(Declared.frame_byte0 hd hcomplete hfits).2, hopcode]
    · rw [hencode, List.length_take, Nat.min_eq_left hcomplete, hconsumed]

end Grpcgi.WebSocket
