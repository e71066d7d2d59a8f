import Grpcgi.Incremental.Cursor
import Grpcgi.Wasm.FrameProto

/-!
# `decode_frame_proto` on arbitrary bytes

The decoder adds a length from the wire to its index before it tests whether the
sum is inside the buffer, and the sum wraps. `frameLoop_follows` says where an
iteration goes, and `totalFrame_iff` for which messages every iteration is harmless.
-/

namespace Grpcgi.Wasm

/-- A field with a length at `i`: its number as the code takes it, the start of its
data and the declared length. -/
def lenField (proto : Bytes) (i : Nat) : Option (Nat × Nat × Nat) :=
  match Protobuf.readVarint (proto.drop i) with
  | none => none
  | some (tag, n) =>
    if tag.toNat % 8 = 2 then
      match Protobuf.readVarint (proto.drop (i + n)) with
      | none => none
      | some (len, m) => some (tag.toNat / 8 % 2 ^ 32, i + n + m, len.toNat)
    else none

/-- Where the field at `i` ends, with its length cast to `usize` and the sum wrapped,
or `none` when the end is beyond the buffer or the field is malformed. -/
def fieldEnd (bits : Nat) (proto : Bytes) (i : Nat) : Option Nat :=
  let inside (stop : Nat) : Option Nat := if proto.length < stop then none else some stop
  match Protobuf.readVarint (proto.drop i) with
  | none => none
  | some (tag, n) =>
    match tag.toNat % 8 with
    | 0 => (Protobuf.readVarint (proto.drop (i + n))).map fun (_, m) => i + n + m
    | 1 => inside (i + n + 8)
    | 2 =>
      match Protobuf.readVarint (proto.drop (i + n)) with
      | none => none
      | some (len, m) => inside ((i + n + m + len.toNat % 2 ^ bits) % 2 ^ bits)
    | 5 => inside (i + n + 4)
    | _ => none

/-- The length of the field at `i`, if it has one, does no harm: the sum does not wrap,
or the field is not field 1 and the wrapped sum is still past `i`. -/
def LenHarmless (bits : Nat) (proto : Bytes) (i : Nat) : Prop :=
  ∀ number start len, lenField proto i = some (number, start, len) →
    start + len % 2 ^ bits < 2 ^ bits ∨
      number ≠ 1 ∧ i + 2 ^ bits < start + len % 2 ^ bits

instance (bits : Nat) (proto : Bytes) (i : Nat) : Decidable (LenHarmless bits proto i) :=
  match h : lenField proto i with
  | none => isTrue fun number start len h' => by
      rw [h] at h'
      cases h'
  | some (number, start, len) =>
    decidable_of_iff (start + len % 2 ^ bits < 2 ^ bits ∨
        number ≠ 1 ∧ i + 2 ^ bits < start + len % 2 ^ bits) <| by
      refine ⟨fun hharmless number' start' len' h' => ?_, fun h' => h' number start len h⟩
      rw [h] at h'
      cases h'
      exact hharmless

/-! ## One iteration -/

section Iteration

variable {bits : Nat} {proto : Bytes} {i : Nat}

/-- Past the tag, `decode_frame_proto` moves as `skip_field` does. -/
theorem fieldEnd_skip (hi : i < proto.length) (hsize : proto.length + 8 < 2 ^ bits) {tag : UInt64}
    {n : Nat} (htag : Protobuf.readVarint (proto.drop i) = some (tag, n)) :
    skipField bits proto (i + n) (tag &&& 0x07).toNat = fieldEnd bits proto i := by
  obtain ⟨-, hn, -⟩ := Protobuf.readVarint_size htag
  rw [List.length_drop] at hn
  simp only [fieldEnd, htag, (tag_split tag).1]
  generalize tag.toNat % 8 = wire
  have hfixed (k : Nat) (hk : k ≤ 8) : usize bits (i + n + k) = i + n + k :=
    usize_of_lt (by omega)
  unfold skipField
  split
  · rw [readVarint_eq]
    cases hread : Protobuf.readVarint (proto.drop (i + n)) with
    | none => rfl
    | some r =>
        obtain ⟨-, hm, -⟩ := Protobuf.readVarint_size hread
        rw [List.length_drop] at hm
        simp only [Option.map_some]
        rw [usize_of_lt (by omega)]
  · simp only [hfixed 8 (Nat.le_refl 8)]
  · rw [readVarint_eq]
    cases hread : Protobuf.readVarint (proto.drop (i + n)) with
    | none => rfl
    | some r =>
        obtain ⟨-, hm, -⟩ := Protobuf.readVarint_size hread
        rw [List.length_drop] at hm
        simp only [usize_of_lt (show i + n + r.2 < 2 ^ bits by omega)]
        rfl
  · simp only [hfixed 4 (by decide)]
  · simp_all

theorem lenField_cases {number start len : Nat} (h : lenField proto i = some (number, start, len)) :
    ∃ tag n length m, Protobuf.readVarint (proto.drop i) = some (tag, n) ∧ tag.toNat % 8 = 2 ∧
      Protobuf.readVarint (proto.drop (i + n)) = some (length, m) ∧
      number = tag.toNat / 8 % 2 ^ 32 ∧ start = i + n + m ∧ len = length.toNat := by
  unfold lenField at h
  split at h
  · cases h
  · rename_i tag n htag
    split at h
    · rename_i hwire
      split at h
      · cases h
      · rename_i length m hlength
        cases h
        exact ⟨tag, n, length, m, htag, hwire, hlength, rfl, rfl, rfl⟩
    · cases h

theorem fieldEnd_len {number start len : Nat} (hi : i < proto.length)
    (h : lenField proto i = some (number, start, len)) :
    i < start ∧ start ≤ proto.length ∧ fieldEnd bits proto i =
      if proto.length < (start + len % 2 ^ bits) % 2 ^ bits then none
      else some ((start + len % 2 ^ bits) % 2 ^ bits) := by
  obtain ⟨tag, n, length, m, htag, hwire, hlength, -, rfl, rfl⟩ := lenField_cases h
  obtain ⟨hpos, hn, -⟩ := Protobuf.readVarint_size htag
  obtain ⟨-, hm, -⟩ := Protobuf.readVarint_size hlength
  rw [List.length_drop] at hn hm
  refine ⟨by omega, by omega, ?_⟩
  simp only [fieldEnd, htag, hwire, hlength]

theorem fieldEnd_other {j : Nat} (h : lenField proto i = none)
    (hend : fieldEnd bits proto i = some j) : i < j := by
  unfold fieldEnd at hend
  simp only at hend
  split at hend
  · cases hend
  · rename_i tag n htag
    obtain ⟨hpos, -⟩ := Protobuf.readVarint_size htag
    split at hend
    · obtain ⟨⟨v, m⟩, -, heq⟩ := Option.map_eq_some_iff.mp hend
      cases heq
      omega
    · split at hend
      · cases hend
      · cases hend
        omega
    · rename_i hwire
      split at hend
      · cases hend
      · rename_i len m hlen
        simp only [lenField, htag, hwire, if_true, hlen] at h
        cases h
    · split at hend
      · cases hend
      · cases hend
        omega
    · cases hend

/-- With its length harmless, a field ends after it began. -/
theorem fieldEnd_climbs {j : Nat} (hi : i < proto.length) (hsize : proto.length + 8 < 2 ^ bits)
    (hend : fieldEnd bits proto i = some j) (hharmless : LenHarmless bits proto i) : i < j := by
  cases hlen : lenField proto i with
  | none => exact fieldEnd_other hlen hend
  | some field =>
      obtain ⟨number, start, len⟩ := field
      obtain ⟨hstart, hle, hstop⟩ := @fieldEnd_len bits proto i number start len hi hlen
      have hmod := Nat.mod_lt len (Nat.two_pow_pos bits)
      rw [hend] at hstop
      split at hstop
      · cases hstop
      · cases hstop
        obtain hlt | ⟨-, hpast⟩ := hharmless number start len hlen
        · rw [Nat.mod_eq_of_lt hlt]
          omega
        · rw [Nat.mod_eq_sub_mod (by omega), Nat.mod_eq_of_lt (by omega)]
          omega

/-- An iteration on the payload: the slice is taken from the start of the data to the
wrapped end. -/
theorem decodeFrameField_end_payload {start len : Nat} (frame : FrameProto) (hi : i < proto.length)
    (hsize : proto.length + 8 < 2 ^ bits) (h : lenField proto i = some (1, start, len)) :
    let stop := (start + len % 2 ^ bits) % 2 ^ bits
    decodeFrameField bits proto i frame =
      if proto.length < stop then .ok none
      else if stop < start then .error .sliceOrder
      else .ok (some (stop, { frame with payload := (proto.drop start).take (stop - start) })) := by
  obtain ⟨tag, n, length, m, htag, hwire, hlength, hnumber, rfl, rfl⟩ := lenField_cases h
  obtain ⟨-, hn, -⟩ := Protobuf.readVarint_size htag
  obtain ⟨-, hm, -⟩ := Protobuf.readVarint_size hlength
  rw [List.length_drop] at hn hm
  obtain ⟨hlow, hhigh⟩ := tag_split tag
  have hstart : usize bits (i + n) = i + n := usize_of_lt (by omega)
  have hdata : usize bits (i + n + m) = i + n + m := usize_of_lt (by omega)
  simp only [decodeFrameField, readVarint_eq, htag, hstart, hlow, hhigh, hwire, ← hnumber]
  rw [if_pos ⟨trivial, trivial⟩]
  simp only [hlength, hdata]
  rw [usize, usize]
  by_cases hout : proto.length < (i + n + m + length.toNat % 2 ^ bits) % 2 ^ bits
  · rw [if_pos hout, if_pos hout]
  · rw [if_neg hout, if_neg hout, slice]
    by_cases horder : (i + n + m + length.toNat % 2 ^ bits) % 2 ^ bits < i + n + m
    · rw [if_pos horder, if_pos horder]
      rfl
    · rw [if_neg horder, if_neg horder, if_neg hout]
      rfl

theorem decodeFrameField_end_other (frame : FrameProto) (hi : i < proto.length)
    (hsize : proto.length + 8 < 2 ^ bits)
    (h : ∀ start len, lenField proto i ≠ some (1, start, len)) :
    (fieldEnd bits proto i = none ∧ decodeFrameField bits proto i frame = .ok none) ∨
      ∃ j next, fieldEnd bits proto i = some j ∧
        decodeFrameField bits proto i frame = .ok (some (j, next)) := by
  cases htag : Protobuf.readVarint (proto.drop i) with
  | none =>
      exact .inl ⟨by simp only [fieldEnd, htag],
        by simp only [decodeFrameField, readVarint_eq, htag]⟩
  | some r =>
      obtain ⟨tag, n⟩ := r
      obtain ⟨-, hn, -⟩ := Protobuf.readVarint_size htag
      rw [List.length_drop] at hn
      have hskip := fieldEnd_skip hi hsize htag
      obtain ⟨hlow, hhigh⟩ := tag_split tag
      have hstart : usize bits (i + n) = i + n := usize_of_lt (by omega)
      simp only [decodeFrameField, readVarint_eq, htag, hstart, hhigh]
      by_cases hpayload : tag.toNat / 8 % 2 ^ 32 = 1 ∧ (tag &&& 0x07).toNat = 2
      · -- the length is missing, or the field would be a payload
        rw [if_pos hpayload]
        cases hlength : Protobuf.readVarint (proto.drop (i + n)) with
        | none =>
            have hwire : tag.toNat % 8 = 2 := hlow ▸ hpayload.2
            exact .inl ⟨by simp only [fieldEnd, htag, hwire, hlength], rfl⟩
        | some r =>
            have hwire : tag.toNat % 8 = 2 := hlow ▸ hpayload.2
            refine absurd ?_ (h (i + n + r.2) r.1.toNat)
            simp only [lenField, htag, if_pos hwire, hlength, hpayload.1]
      · rw [if_neg hpayload]
        by_cases hflag : tag.toNat / 8 % 2 ^ 32 = 2 ∧ (tag &&& 0x07).toNat = 0
        · have hwire : tag.toNat % 8 = 0 := hlow ▸ hflag.2
          rw [if_pos hflag]
          simp only [fieldEnd, htag, hwire]
          cases hv : Protobuf.readVarint (proto.drop (i + n)) with
          | none => exact .inl ⟨rfl, rfl⟩
          | some r =>
              obtain ⟨-, hm, -⟩ := Protobuf.readVarint_size hv
              rw [List.length_drop] at hm
              have hend : usize bits (i + n + r.2) = i + n + r.2 := usize_of_lt (by omega)
              simp only [Option.map_some, hend]
              exact .inr ⟨_, _, rfl, rfl⟩
        · rw [if_neg hflag, hskip]
          cases fieldEnd bits proto i with
          | none => exact .inl ⟨rfl, rfl⟩
          | some j => exact .inr ⟨j, frame, rfl, rfl⟩

end Iteration

/-! ## The loop -/

def frameLoop (bits : Nat) (proto : Bytes) :
    Cursor.Loop Trap FrameProto (Option FrameProto) where
  size := proto.length
  step i frame :=
    match decodeFrameField bits proto i frame with
    | .error e => .fail e
    | .ok none => .stop none
    | .ok (some (j, next)) => .next j next
  finish frame := some frame
  endless := .diverges

theorem decodeFrameLoop_run (bits : Nat) (proto : Bytes) (fuel i : Nat) (frame : FrameProto) :
    decodeFrameLoop bits proto fuel i frame = (frameLoop bits proto).run fuel i frame := by
  induction fuel generalizing i frame with
  | zero => rfl
  | succ fuel ih =>
      rw [decodeFrameLoop, Cursor.Loop.run]
      by_cases hi : i < proto.length
      · rw [if_pos hi, if_pos (show i < (frameLoop bits proto).size from hi)]
        simp only [frameLoop]
        cases decodeFrameField bits proto i frame with
        | error e => rfl
        | ok r =>
            cases r with
            | none => rfl
            | some r => exact ih r.1 r.2
      · rw [if_neg hi, if_neg (show ¬ i < (frameLoop bits proto).size from hi)]
        rfl

section Loop

variable {bits : Nat} {proto : Bytes}

/-- The index moves to the end of each field. -/
theorem frameLoop_follows (hsize : proto.length + 8 < 2 ^ bits) :
    (frameLoop bits proto).Follows (fieldEnd bits proto) := by
  intro i frame hi
  have hi : i < proto.length := hi
  simp only [frameLoop]
  by_cases hpayload : ∃ start len, lenField proto i = some (1, start, len)
  · obtain ⟨start, len, hlen⟩ := hpayload
    obtain ⟨-, -, hend⟩ := @fieldEnd_len bits proto i 1 start len hi hlen
    have hfield := decodeFrameField_end_payload frame hi hsize hlen
    simp only at hfield
    rw [hfield, hend]
    by_cases hout : proto.length < (start + len % 2 ^ bits) % 2 ^ bits
    · simp only [if_pos hout]
    · by_cases horder : (start + len % 2 ^ bits) % 2 ^ bits < start
      · simp only [if_neg hout, if_pos horder]
      · simp only [if_neg hout, if_neg horder]
  · have hother : ∀ start len, lenField proto i ≠ some (1, start, len) :=
      fun start len hlen => hpayload ⟨start, len, hlen⟩
    obtain ⟨hend, hfield⟩ | ⟨j, next, hend, hfield⟩ :=
      decodeFrameField_end_other frame hi hsize hother
    · simp only [hfield, hend]
    · simp only [hfield, hend]

/-- The only failure: a payload whose end wraps below its start. -/
theorem frameLoop_fails_iff (hsize : proto.length + 8 < 2 ^ bits) {i : Nat} (frame : FrameProto)
    (hi : i < proto.length) :
    (∃ e, (frameLoop bits proto).step i frame = .fail e) ↔
      ∃ start len, lenField proto i = some (1, start, len) ∧
        2 ^ bits ≤ start + len % 2 ^ bits := by
  simp only [frameLoop]
  by_cases hpayload : ∃ start len, lenField proto i = some (1, start, len)
  · obtain ⟨start, len, hlen⟩ := hpayload
    obtain ⟨-, hle, -⟩ := @fieldEnd_len bits proto i 1 start len hi hlen
    have hmod := Nat.mod_lt len (Nat.two_pow_pos bits)
    have hfield := decodeFrameField_end_payload frame hi hsize hlen
    simp only at hfield
    by_cases hwraps : 2 ^ bits ≤ start + len % 2 ^ bits
    · have hstop : (start + len % 2 ^ bits) % 2 ^ bits < start := by
        rw [Nat.mod_eq_sub_mod hwraps, Nat.mod_eq_of_lt (by omega)]
        omega
      rw [if_neg (by omega), if_pos hstop] at hfield
      exact iff_of_true ⟨.sliceOrder, by rw [hfield]⟩ ⟨start, len, hlen, hwraps⟩
    · have hstop : ¬ (start + len % 2 ^ bits) % 2 ^ bits < start := by
        rw [Nat.mod_eq_of_lt (Nat.lt_of_not_le hwraps)]
        omega
      rw [if_neg hstop] at hfield
      refine iff_of_false ?_ ?_
      · rintro ⟨e, hstep⟩
        rw [hfield] at hstep
        by_cases hout : proto.length < (start + len % 2 ^ bits) % 2 ^ bits
        · rw [if_pos hout] at hstep
          cases hstep
        · rw [if_neg hout] at hstep
          cases hstep
      · rintro ⟨start', len', hlen', hwraps'⟩
        rw [hlen] at hlen'
        cases hlen'
        exact hwraps hwraps'
  · refine iff_of_false ?_ ?_
    · rintro ⟨e, hstep⟩
      obtain ⟨-, hfield⟩ | ⟨j, next, -, hfield⟩ := decodeFrameField_end_other frame hi hsize
        fun start len hlen => hpayload ⟨start, len, hlen⟩
      · rw [hfield] at hstep
        cases hstep
      · rw [hfield] at hstep
        cases hstep
    · rintro ⟨start, len, hlen, -⟩
      exact hpayload ⟨start, len, hlen⟩

/-- An iteration neither fails nor moves down exactly if the length of its field, if it
has one, is harmless. -/
theorem frameLoop_harmless (hsize : proto.length + 8 < 2 ^ bits) {i : Nat} (frame : FrameProto)
    (hi : i < proto.length) :
    ((∀ e, (frameLoop bits proto).step i frame ≠ .fail e) ∧
      ∀ j next, (frameLoop bits proto).step i frame = .next j next → i < j) ↔
      LenHarmless bits proto i := by
  have hfails := frameLoop_fails_iff hsize frame hi
  have hfollows := frameLoop_follows hsize i frame hi
  constructor
  · rintro ⟨hsound, hclimbs⟩ number start len hlen
    obtain ⟨-, hle, hend⟩ := @fieldEnd_len bits proto i number start len hi hlen
    have hmod := Nat.mod_lt len (Nat.two_pow_pos bits)
    refine or_iff_not_imp_left.mpr fun hwraps => ⟨?_, ?_⟩
    · rintro rfl
      obtain ⟨e, hstep⟩ := hfails.mpr ⟨start, len, hlen, Nat.le_of_not_lt hwraps⟩
      exact hsound e hstep
    · rw [Nat.mod_eq_sub_mod (Nat.le_of_not_lt hwraps), Nat.mod_eq_of_lt (by omega),
        if_neg (by omega)] at hend
      cases hstep : (frameLoop bits proto).step i frame with
      | fail e => exact absurd hstep (hsound e)
      | stop r =>
          rw [hstep] at hfollows
          rw [hfollows] at hend
          cases hend
      | next j next =>
          have hlt := hclimbs j next hstep
          rw [hstep] at hfollows
          rw [hfollows] at hend
          cases hend
          omega
  · intro hharmless
    refine ⟨fun e hstep => ?_, fun j next hstep => ?_⟩
    · obtain ⟨start, len, hlen, hwraps⟩ := hfails.mp ⟨e, hstep⟩
      obtain hlt | ⟨hnumber, -⟩ := hharmless 1 start len hlen
      · exact absurd hlt (Nat.not_lt_of_le hwraps)
      · exact hnumber rfl
    · rw [hstep] at hfollows
      exact fieldEnd_climbs hi hsize hfollows hharmless

end Loop

/-! ## Totality -/

/-- One call is total: it returns, so it neither traps nor loops forever, and every
iteration moves the index up. -/
structure TotalFrame (bits : Nat) (proto : Bytes) : Prop where
  returns : ∃ answer, decodeFrameProto bits proto = .ok answer
  climbs : ∀ i frame, (frameLoop bits proto).Reaches 0 {} i frame → i < proto.length →
    ∀ j next, decodeFrameField bits proto i frame = .ok (some (j, next)) → i < j

/-- `decode_frame_proto` is total exactly on the messages where the length of every
field that the index comes to is harmless. -/
theorem totalFrame_iff {bits : Nat} (hbits : bits = 32 ∨ bits = 64) (proto : Bytes)
    (hsize : proto.length < 2 ^ (bits - 1)) :
    TotalFrame bits proto ↔
      ∀ i, Cursor.Walk proto.length (fieldEnd bits proto) i → i < proto.length →
        LenHarmless bits proto i := by
  have hroom : proto.length + 8 < 2 ^ bits := by
    obtain rfl | rfl := hbits <;> omega
  have hstep (i : Nat) (frame : FrameProto) :
      (∀ j next, (frameLoop bits proto).step i frame = .next j next → i < j) ↔
        ∀ j next, decodeFrameField bits proto i frame = .ok (some (j, next)) → i < j := by
    refine forall_congr' fun j => forall_congr' fun next => imp_congr_left ?_
    simp only [frameLoop]
    constructor
    · intro h
      split at h
      · cases h
      · cases h
      · rename_i hfield
        cases h
        exact hfield
    · intro h
      rw [h]
  have hsafe : ((∃ r, (frameLoop bits proto).run (proto.length + 1) 0 {} = .ok r) ∧
      ∀ i frame, (frameLoop bits proto).Reaches 0 {} i frame → i < proto.length →
        ∀ j next, (frameLoop bits proto).step i frame = .next j next → i < j) ↔
      ∀ i, Cursor.Walk proto.length (fieldEnd bits proto) i → i < proto.length →
        LenHarmless bits proto i :=
    (frameLoop_follows hroom).safe_iff (fun i frame j next _ hQ => hQ j next)
      (fun i frame hi => frameLoop_harmless hroom frame hi) (Nat.lt_succ_self proto.length)
  refine Iff.trans ?_ hsafe
  constructor
  · rintro ⟨⟨answer, hanswer⟩, hclimbs⟩
    refine ⟨⟨answer, ?_⟩, fun i frame hreach hi => (hstep i frame).mpr (hclimbs i frame hreach hi)⟩
    rw [← hanswer, decodeFrameProto, decodeFrameLoop_run]
  · rintro ⟨⟨answer, hanswer⟩, hclimbs⟩
    refine ⟨⟨answer, ?_⟩, fun i frame hreach hi => (hstep i frame).mp (hclimbs i frame hreach hi)⟩
    rw [decodeFrameProto, decodeFrameLoop_run]
    exact hanswer

/-- A payload of one byte and the flag. -/
theorem totalFrame_iff_short : TotalFrame 32 [0x0A, 0x01, 0x61, 0x10, 0x01] :=
  (totalFrame_iff (.inl rfl) [0x0A, 0x01, 0x61, 0x10, 0x01] (by decide)).mpr fun i _ hi =>
    (by decide : ∀ i < 5, LenHarmless 32 [0x0A, 0x01, 0x61, 0x10, 0x01] i) i hi

theorem not_total_of_error {bits : Nat} {proto : Bytes} {e : Trap}
    (h : decodeFrameProto bits proto = .error e) : ¬ TotalFrame bits proto := by
  rintro ⟨⟨answer, hanswer⟩, -⟩
  rw [h] at hanswer
  cases hanswer

/-- Lengths of `2^32 - 1` and `2^64 - 1` make the slice of a payload end before it
starts, and an unknown field of `2^32 - 6` bytes takes the index back to the field, so
that the loop never ends. -/
theorem lengths_not_total :
    ((decodeFrameProto 32 [0x0A, 0xFF, 0xFF, 0xFF, 0xFF, 0x0F] = .error .sliceOrder ∧
        ¬ TotalFrame 32 [0x0A, 0xFF, 0xFF, 0xFF, 0xFF, 0x0F]) ∧
      decodeFrameProto 32 [0x1A, 0xFA, 0xFF, 0xFF, 0xFF, 0x0F] = .error .diverges ∧
        ¬ TotalFrame 32 [0x1A, 0xFA, 0xFF, 0xFF, 0xFF, 0x0F]) ∧
    decodeFrameProto 64 [0x0A, 0xFF, 0xFF, 0xFF, 0xFF, 0xFF, 0xFF, 0xFF, 0xFF, 0xFF, 0x01] =
        .error .sliceOrder ∧
      ¬ TotalFrame 64 [0x0A, 0xFF, 0xFF, 0xFF, 0xFF, 0xFF, 0xFF, 0xFF, 0xFF, 0xFF, 0x01] := by
  have hslice : decodeFrameProto 32 [0x0A, 0xFF, 0xFF, 0xFF, 0xFF, 0x0F] =
      .error .sliceOrder := by decide
  have hloop : decodeFrameProto 32 [0x1A, 0xFA, 0xFF, 0xFF, 0xFF, 0x0F] =
      .error .diverges := by decide
  have hwide : decodeFrameProto 64
      [0x0A, 0xFF, 0xFF, 0xFF, 0xFF, 0xFF, 0xFF, 0xFF, 0xFF, 0xFF, 0x01] =
        .error .sliceOrder := by decide
  exact ⟨⟨⟨hslice, not_total_of_error hslice⟩, hloop, not_total_of_error hloop⟩, hwide,
    not_total_of_error hwide⟩

end Grpcgi.Wasm
